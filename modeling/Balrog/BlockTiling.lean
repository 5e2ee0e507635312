import Mathlib.Tactic.Common

/-!
# Contiguous blocks with boundary tags

A region is tiled by blocks, each a header of fixed width followed by its
payload. A boundary tag records, at the start of every block, its size, whether
it is free, whether the block before it is free (with a pointer to that block),
and, for a free block, the next free block. `Tagged` says that a tag store holds
exactly these data for a given list of blocks.

The predicate is recursive in the list, so it splits at every append. An
allocator edits a tiling in the middle: `tagged_relink` carries the blocks below
the edit to a new successor in the free list, and `tagged_rebase` carries the
blocks above it to a new predecessor. Both read only the tags of their own
blocks, which separates the edit from everything else.

The header width and the tag store are parameters. No memory layout, search
order or splitting policy is fixed here.
-/

namespace BlockTiling

open List

/-- One block of a tiling, described by its payload size and its status. -/
structure Block where
  size : Nat
  free : Bool
deriving DecidableEq, Repr

/-- The data a boundary tag holds for one block. `afterFree` and `previous`
describe the block before it; `next` is meaningful only in a free block. -/
structure Tag where
  size : Nat
  free : Bool
  afterFree : Bool
  previous : Nat
  next : Nat

/-- Bytes covered by a list of blocks, headers included. -/
def span (width : Nat) : List Block → Nat
  | [] => 0
  | block :: rest => width + block.size + span width rest

/-- The blocks with their addresses, laid out from a given start. -/
def place (width : Nat) : Nat → List Block → List (Nat × Block)
  | _, [] => []
  | address, block :: rest =>
      (address, block) :: place width (address + (width + block.size)) rest

/-- The used blocks of a tiling, each with its address. -/
def usedPlaces (width address : Nat) (blocks : List Block) : List (Nat × Block) :=
  (place width address blocks).filter (fun entry => !entry.2.free)

/-- Address of the first free block, or the given address when there is none. -/
def firstFree (width : Nat) : Nat → List Block → Nat → Nat
  | _, [], beyond => beyond
  | address, block :: rest, beyond =>
      if block.free then address else firstFree width (address + (width + block.size)) rest beyond

/-- The free block that ends where the list ends, if the last block is free. An
empty list passes on what preceded it. -/
def freeBefore (width : Nat) : Option Nat → Nat → List Block → Option Nat
  | before, _, [] => before
  | _, address, block :: rest =>
      freeBefore width (if block.free then some address else none)
        (address + (width + block.size)) rest

/-- Address of the last free block of the list, wherever it stands. -/
def lastFree (width : Nat) : Nat → List Block → Option Nat
  | _, [] => none
  | address, block :: rest =>
      (lastFree width (address + (width + block.size)) rest).or
        (if block.free then some address else none)

/-- The tag store describes these blocks, laid out from `address`. `before` is
the free block ending at `address`, if any, and `beyond` is where the last free
block points. Two free blocks never touch. -/
def Tagged (width : Nat) (tags : Nat → Tag) : Option Nat → Nat → List Block → Nat → Prop
  | _, _, [], _ => True
  | before, address, block :: rest, beyond =>
      ((tags address).size = block.size ∧
        (tags address).free = block.free ∧
        (tags address).afterFree = before.isSome ∧
        (∀ previous, before = some previous → (tags address).previous = previous) ∧
        (block.free = true → before = none ∧
          (tags address).next =
            firstFree width (address + (width + block.size)) rest beyond)) ∧
      Tagged width tags (if block.free then some address else none)
        (address + (width + block.size)) rest beyond

section Layout

variable (width : Nat)

@[simp] theorem span_nil : span width [] = 0 := rfl

@[simp] theorem span_cons (block : Block) (rest : List Block) :
    span width (block :: rest) = width + block.size + span width rest := rfl

variable (address : Nat) (blocks : List Block) (left right : List Block)

@[simp] theorem span_append :
    span width (left ++ right) = span width left + span width right := by
  induction left with
  | nil => simp
  | cons block rest ih =>
    simp only [cons_append, span_cons, ih]
    omega

/-- A tiling that covers anything covers a whole header. -/
theorem span_zero_or_wide :
    span width blocks = 0 ∨ width ≤ span width blocks := by
  cases blocks with
  | nil => exact .inl rfl
  | cons block rest =>
    simp only [span_cons]
    omega

/-- A tiling has at most one block for each header width of bytes. -/
theorem length_le_span (positive : 0 < width) :
    blocks.length ≤ span width blocks := by
  induction blocks with
  | nil => simp
  | cons block rest ih =>
    simp only [length_cons, span_cons]
    omega

@[simp] theorem place_append :
    place width address (left ++ right) =
      place width address left ++ place width (address + span width left) right := by
  induction left generalizing address with
  | nil => simp [place]
  | cons block rest ih =>
    simp only [cons_append, place, ih, span_cons, Nat.add_assoc]

@[simp] theorem used_places_nil : usedPlaces width address [] = [] := rfl

@[simp] theorem used_places_append :
    usedPlaces width address (left ++ right) =
      usedPlaces width address left ++ usedPlaces width (address + span width left) right := by
  simp only [usedPlaces, place_append, filter_append]

@[simp] theorem used_places_cons (block : Block) (rest : List Block) :
    usedPlaces width address (block :: rest) =
      (if block.free then [] else [(address, block)]) ++
        usedPlaces width (address + (width + block.size)) rest := by
  cases status : block.free <;> simp [usedPlaces, place, status]

/-- Every placed block lies inside the span of the tiling. -/
theorem place_bounds (entry : Nat × Block) (member : entry ∈ place width address blocks) :
    address ≤ entry.1 ∧ entry.1 + (width + entry.2.size) ≤ address + span width blocks := by
  induction blocks generalizing address with
  | nil => simp [place] at member
  | cons block rest ih =>
    simp only [place, mem_cons] at member
    rcases member with rfl | later
    · simp only [span_cons]
      omega
    · have bounds := ih _ later
      simp only [span_cons]
      omega

/-- Placed blocks follow each other without overlap. -/
theorem place_pairwise :
    (place width address blocks).Pairwise
      (fun left right => left.1 + (width + left.2.size) ≤ right.1) := by
  induction blocks generalizing address with
  | nil => exact List.Pairwise.nil
  | cons block rest ih =>
    refine List.Pairwise.cons ?_ (ih _)
    intro entry member
    exact (place_bounds width _ rest entry member).1

/-- A placed block cuts its tiling into the blocks below and above it. -/
theorem place_split (entry : Nat × Block) (member : entry ∈ place width address blocks) :
    ∃ below above, blocks = below ++ entry.2 :: above ∧ entry.1 = address + span width below := by
  induction blocks generalizing address with
  | nil => simp [place] at member
  | cons block rest ih =>
    simp only [place, mem_cons] at member
    rcases member with rfl | later
    · exact ⟨[], rest, rfl, by simp⟩
    · obtain ⟨below, above, same, located⟩ := ih _ later
      refine ⟨block :: below, above, by rw [same]; rfl, ?_⟩
      simp only [span_cons]
      omega

end Layout

section FreeList

variable (width : Nat)

variable (address : Nat) (blocks : List Block)

@[simp] theorem first_free_append (left right : List Block) (beyond : Nat) :
    firstFree width address (left ++ right) beyond =
      firstFree width address left (firstFree width (address + span width left) right beyond) := by
  induction left generalizing address with
  | nil => simp [firstFree]
  | cons block rest ih =>
    simp only [cons_append, firstFree, ih, span_cons, Nat.add_assoc]

@[simp] theorem free_before_append (before : Option Nat) (address : Nat) (left right : List Block) :
    freeBefore width before address (left ++ right) =
      freeBefore width (freeBefore width before address left)
        (address + span width left) right := by
  induction left generalizing before address with
  | nil => simp [freeBefore]
  | cons block rest ih =>
    simp only [cons_append, freeBefore, ih, span_cons, Nat.add_assoc]

@[simp] theorem last_free_append (left right : List Block) :
    lastFree width address (left ++ right) =
      (lastFree width (address + span width left) right).or (lastFree width address left) := by
  induction left generalizing address with
  | nil => simp [lastFree]
  | cons block rest ih =>
    simp only [cons_append, lastFree, ih, span_cons, Nat.add_assoc,
      Option.or_assoc]

/-- Without a free block the search runs off the end. -/
theorem first_free_used (beyond : Nat) (used : ∀ block ∈ blocks, block.free = false) :
    firstFree width address blocks beyond = beyond := by
  induction blocks generalizing address with
  | nil => rfl
  | cons block rest ih =>
    have headUsed : block.free = false := used block mem_cons_self
    simp only [firstFree, headUsed, Bool.false_eq_true, if_false]
    exact ih _ (forall_mem_cons.mp used).2

/-- There is no last free block exactly where every block is used. -/
theorem last_free_none :
    lastFree width address blocks = none ↔ ∀ block ∈ blocks, block.free = false := by
  induction blocks generalizing address with
  | nil => simp [lastFree]
  | cons block rest ih =>
    simp only [lastFree, Option.or_eq_none_iff, ih, mem_cons,
      forall_eq_or_imp]
    cases block.free <;> simp

/-- Either no block is free, or the list splits at its first free block. -/
theorem first_free_cases (beyond : Nat) :
    (∀ block ∈ blocks, block.free = false) ∨
      ∃ below block above, blocks = below ++ block :: above ∧
        (∀ other ∈ below, other.free = false) ∧ block.free = true ∧
        firstFree width address blocks beyond = address + span width below := by
  induction blocks generalizing address with
  | nil => exact .inl (by simp)
  | cons block rest ih =>
    cases status : block.free with
    | true => exact .inr ⟨[], block, rest, rfl, by simp, status, by simp [firstFree, status]⟩
    | false =>
      rcases ih (address + (width + block.size)) with
        used | ⟨below, found, above, same, used, free, located⟩
      · exact .inl (forall_mem_cons.mpr ⟨status, used⟩)
      · refine .inr ⟨block :: below, found, above, by rw [same]; rfl,
          forall_mem_cons.mpr ⟨status, used⟩, free, ?_⟩
        simp only [firstFree, status, Bool.false_eq_true, if_false, located, span_cons]
        omega

/-- The first free block stands between the start and the end of the region. -/
theorem first_free_bounds :
    address ≤ firstFree width address blocks (address + span width blocks) ∧
      firstFree width address blocks (address + span width blocks) ≤
        address + span width blocks := by
  rcases first_free_cases width address blocks (address + span width blocks) with
    used | ⟨below, block, above, same, _, _, located⟩
  · rw [first_free_used width address blocks _ used]
    omega
  · rw [located, same]
    simp only [span_append, span_cons]
    omega

/-- The last free block has only used ones behind it. -/
theorem last_free_split (last : Nat) (found : lastFree width address blocks = some last) :
    ∃ below block above, blocks = below ++ block :: above ∧ block.free = true ∧
      (∀ other ∈ above, other.free = false) ∧ last = address + span width below := by
  induction blocks generalizing address with
  | nil => simp [lastFree] at found
  | cons block rest ih =>
    simp only [lastFree, Option.or_eq_some_iff] at found
    rcases found with later | ⟨none, here⟩
    · obtain ⟨below, other, above, same, free, used, located⟩ := ih _ later
      refine ⟨block :: below, other, above, by rw [same]; rfl, free, used, ?_⟩
      simp only [span_cons]
      omega
    · cases status : block.free with
      | false => simp [status] at here
      | true =>
        simp only [status, if_true, Option.some.injEq] at here
        exact ⟨[], block, rest, rfl, status, (last_free_none width _ rest).mp none, by simp [here]⟩

/-- The free block ending at the end of a nonempty list is its last block. -/
theorem free_before_split (last : Nat) (found : freeBefore width none address blocks = some last) :
    ∃ below block, blocks = below ++ [block] ∧ block.free = true ∧
      last = address + span width below := by
  rcases eq_nil_or_concat blocks with rfl | ⟨below, block, rfl⟩
  · simp [freeBefore] at found
  · rw [concat_eq_append, free_before_append] at found
    simp only [freeBefore] at found
    cases status : block.free with
    | false => simp [status] at found
    | true =>
      simp only [status, if_true, Option.some.injEq] at found
      exact ⟨below, block, by simp, status, found.symm⟩

end FreeList

section Tags

variable (width : Nat) {tags tags' : Nat → Tag}

variable (before : Option Nat) (address : Nat) (blocks : List Block)

/-- A tiling of an append is a tiling of both parts, each seeing the other only
through the first free block above it and the free block below it. -/
theorem tagged_append (left right : List Block) (beyond : Nat) :
    Tagged width tags before address (left ++ right) beyond ↔
      Tagged width tags before address left
        (firstFree width (address + span width left) right beyond) ∧
      Tagged width tags (freeBefore width before address left)
        (address + span width left) right beyond := by
  induction left generalizing before address with
  | nil => simp [Tagged, freeBefore]
  | cons block rest ih =>
    simp only [cons_append, Tagged, ih, first_free_append, freeBefore,
      span_cons, Nat.add_assoc, and_assoc]

/-- Tags outside a region's block starts do not matter. -/
theorem tagged_congr (beyond : Nat) (tagged : Tagged width tags before address blocks beyond)
    (same : ∀ probe, address ≤ probe → probe + width ≤ address + span width blocks →
      tags' probe = tags probe) :
    Tagged width tags' before address blocks beyond := by
  induction blocks generalizing before address with
  | nil => trivial
  | cons block rest ih =>
    simp only [span_cons] at same
    have head : tags' address = tags address := same address (Nat.le_refl _) (by omega)
    refine ⟨by rw [head]; exact tagged.1, ?_⟩
    exact ih _ _ tagged.2
      (fun probe lower upper => same probe (by omega) (by omega))

/-- Without a free block nothing points beyond the region. -/
theorem tagged_used (beyond beyond' : Nat) (used : ∀ block ∈ blocks, block.free = false)
    (tagged : Tagged width tags before address blocks beyond) :
    Tagged width tags before address blocks beyond' := by
  induction blocks generalizing before address with
  | nil => trivial
  | cons block rest ih =>
    have headUsed : block.free = false := used block mem_cons_self
    obtain ⟨⟨size, free, afterFree, previous, _⟩, above⟩ := tagged
    refine ⟨⟨size, free, afterFree, previous, by simp [headUsed]⟩, ?_⟩
    exact ih _ _
      (forall_mem_cons.mp used).2 above

/-- Blocks below an edit. The last free block among them is the only one whose
tag sees what follows; its `next` is redirected to the new first free block. -/
theorem tagged_relink (beyond beyond' : Nat)
    (tagged : Tagged width tags before address blocks beyond)
    (same : ∀ probe, address ≤ probe → probe + width ≤ address + span width blocks →
      (∀ last, lastFree width address blocks = some last →
        probe + width ≤ last ∨ last + width ≤ probe) → tags' probe = tags probe)
    (relinked : ∀ last, lastFree width address blocks = some last →
      tags' last = { tags last with next := beyond' }) :
    Tagged width tags' before address blocks beyond' := by
  cases found : lastFree width address blocks with
  | none =>
    have used := (last_free_none width address blocks).mp found
    refine tagged_used width _ _ _ beyond _ used (tagged_congr width _ _ _ _ tagged ?_)
    intro probe lower upper
    exact same probe lower upper (by simp [found])
  | some last =>
    obtain ⟨below, block, above, rfl, free, used, located⟩ := last_free_split width _ _ _ found
    have changed := relinked last found
    rw [tagged_append] at tagged ⊢
    obtain ⟨lowerTagged, ⟨⟨size, isFree, afterFree, previous, next⟩, upperTagged⟩⟩ := tagged
    simp only [firstFree, free, if_true] at lowerTagged ⊢
    simp only [span_append, span_cons] at same
    subst located
    refine ⟨?_, ⟨?_, ?_⟩⟩
    · refine tagged_congr width _ _ _ _ lowerTagged ?_
      intro probe lower upper
      refine same probe lower (by omega) ?_
      intro last isLast
      have located := Option.some.inj (found.symm.trans isLast)
      omega
    · rw [changed]
      refine ⟨size, isFree, afterFree, previous, ?_⟩
      intro _
      exact ⟨(next free).1, (first_free_used width _ above _ used).symm⟩
    · refine tagged_used width _ _ _ beyond _ used (tagged_congr width _ _ _ _ upperTagged ?_)
      intro probe lower upper
      refine same probe (by omega) (by omega) ?_
      intro last isLast
      have located := Option.some.inj (found.symm.trans isLast)
      omega

/-- Blocks above an edit. Only the first of them has a tag that sees what
precedes; it is rewritten to describe the new predecessor. -/
theorem tagged_rebase (before before' : Option Nat) (address : Nat)
    (blocks : List Block) (beyond : Nat)
    (tagged : Tagged width tags before address blocks beyond)
    (same : ∀ probe, address + width ≤ probe → probe + width ≤ address + span width blocks →
      tags' probe = tags probe)
    (rebased : ∀ block rest, blocks = block :: rest →
      (tags' address).size = (tags address).size ∧
      (tags' address).free = (tags address).free ∧
      (tags' address).next = (tags address).next ∧
      (tags' address).afterFree = before'.isSome ∧
      (∀ previous, before' = some previous → (tags' address).previous = previous) ∧
      (block.free = true → before' = none)) :
    Tagged width tags' before' address blocks beyond := by
  cases blocks with
  | nil => trivial
  | cons block rest =>
    obtain ⟨⟨size, free, _, _, next⟩, above⟩ := tagged
    obtain ⟨sameSize, sameFree, sameNext, afterFree, previous, apart⟩ := rebased block rest rfl
    simp only [span_cons] at same
    refine ⟨⟨sameSize.trans size, sameFree.trans free, afterFree, previous, ?_⟩, ?_⟩
    · intro isFree
      exact ⟨apart isFree, sameNext.trans (next isFree).2⟩
    · refine tagged_congr width _ _ _ _ above ?_
      intro probe lower upper
      exact same probe (by omega) (by omega)

end Tags

end BlockTiling
