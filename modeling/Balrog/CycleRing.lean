import Mathlib.Algebra.Group.Nat.Defs
import Mathlib.Tactic.Common

/-!
# Rings whose slots carry a cycle bit

A producer and a consumer go round a ring of slots without telling each other where they
are. Each slot carries one bit next to its item; the producer writes the bit of its lap,
and a slot is ready for the consumer when its bit is the one of the consumer's lap. The
bit starts as true on the first lap and flips with every lap.

Positions are counted from the start and never wrap; slot and bit of a position are
derived from it. `Window` relates the slots to the items written so far and to the
number of items that were consumed. It has a rule for each thing the two sides can do.
-/

namespace CycleRing

open Function

universe u

variable {Item : Type u}

/-- The cycle bit of a lap: set in the first, and changed by every lap. -/
def lapCycle (lap : Nat) : Bool := lap % 2 = 0

/-- The cycle bit with which the entry at an absolute position is written. -/
def cycleAt (size position : Nat) : Bool := lapCycle (position / size)

theorem lapCycle_succ (lap : Nat) : lapCycle (lap + 1) = !lapCycle lap := by
  unfold lapCycle
  by_cases even : lap % 2 = 0
  · rw [decide_eq_true even, decide_eq_false (by omega)]
    rfl
  · rw [decide_eq_false even, decide_eq_true (by omega)]
    rfl

variable {size position first second : Nat}

/-- One lap further the bit is the other one. -/
theorem cycleAt_add_size (positive : 0 < size) (position : Nat) :
    cycleAt size (position + size) = !cycleAt size position := by
  rw [cycleAt, Nat.add_div_right position positive, lapCycle_succ, cycleAt]

/-- Slot and lap of the position after the last slot. -/
theorem succ_wraps (last : position % size + 1 = size) :
    (position + 1) % size = 0 ∧ (position + 1) / size = position / size + 1 := by
  have whole : position + 1 = size * (position / size + 1) := by
    have parts := Nat.div_add_mod position size
    rw [Nat.mul_add, Nat.mul_one]
    omega
  have positive : 0 < size := by omega
  rw [whole]
  exact ⟨Nat.mul_mod_right _ _, Nat.mul_div_right _ positive⟩

/-- Slot and lap of the position after any other slot. -/
theorem succ_stays (positive : 0 < size) (inner : position % size + 1 ≠ size) :
    (position + 1) % size = position % size + 1 ∧ (position + 1) / size = position / size := by
  have small : position % size + 1 < size := by
    have below := Nat.mod_lt position positive
    omega
  have parts : position + 1 = size * (position / size) + (position % size + 1) := by
    have whole := Nat.div_add_mod position size
    omega
  constructor
  · rw [parts, Nat.mul_add_mod, Nat.mod_eq_of_lt small]
  · rw [parts, Nat.mul_add_div positive, Nat.div_eq_of_lt small, Nat.add_zero]

/-- Positions less than a lap apart have different slots. -/
theorem slot_ne (before : first < second) (close : second < first + size) :
    first % size ≠ second % size := by
  intro same
  have divides : size ∣ second - first :=
    Nat.dvd_of_mod_eq_zero (Nat.sub_mod_eq_zero_of_mod_eq same.symm)
  have atLeast := Nat.le_of_dvd (by omega) divides
  omega

/-- The items that are not yet consumed lie in their slots with the bit of their lap, and
the slots that are free carry the bit of the lap before. -/
structure Window (size : Nat) (slots : Nat → Item × Bool) (items : List Item) (consumed : Nat) :
    Prop where
  behind : consumed ≤ items.length
  fits : items.length ≤ consumed + size
  live : ∀ position item, items[position]? = some item → consumed ≤ position →
    slots (position % size) = (item, cycleAt size position)
  stale : ∀ position, items.length ≤ position → position < consumed + size →
    (slots (position % size)).2 = !cycleAt size position

section Rules

variable {consumed : Nat} {slots other : Nat → Item × Bool} {items : List Item}

theorem Window.start (clear : ∀ index < size, (slots index).2 = false) :
    Window size slots [] 0 := by
  refine ⟨Nat.le_refl _, Nat.zero_le _, fun position item found => ?_, fun position _ below => ?_⟩
  · simp at found
  · have inside : position < size := by omega
    rw [Nat.mod_eq_of_lt inside, clear position inside, cycleAt, Nat.div_eq_of_lt inside]
    rfl

section

variable (window : Window size slots items consumed)
include window

theorem Window.congr (positive : 0 < size) (same : ∀ index < size, other index = slots index) :
    Window size other items consumed := by
  refine ⟨window.behind, window.fits, fun position item found after => ?_,
    fun position free below => ?_⟩
  · rw [same _ (Nat.mod_lt _ positive)]
    exact window.live position item found after
  · rw [same _ (Nat.mod_lt _ positive)]
    exact window.stale position free below

/-- The producer prepares the item of its slot and leaves the bit. -/
theorem Window.prepare (room : items.length < consumed + size) (item : Item) :
    Window size (update slots (items.length % size) (item, (slots (items.length % size)).2))
      items consumed := by
  refine ⟨window.behind, window.fits, fun position held found after => ?_,
    fun position free below => ?_⟩
  · have inside : position < items.length := (List.getElem?_eq_some_iff.mp found).1
    rw [update_of_ne (slot_ne inside (by omega))]
    exact window.live position held found after
  · by_cases same : position % size = items.length % size
    · have old := window.stale position free below
      rw [same] at old
      rw [same, update_self]
      exact old
    · rw [update_of_ne same]
      exact window.stale position free below

theorem Window.write (room : items.length < consumed + size) (item : Item) :
    Window size (update slots (items.length % size) (item, cycleAt size items.length))
      (items ++ [item]) consumed := by
  have behind := window.behind
  refine ⟨?_, ?_, fun position held found after => ?_, fun position free below => ?_⟩
  · rw [List.length_append]
    omega
  · rw [List.length_append, List.length_singleton]
    omega
  · by_cases last : position = items.length
    · subst last
      rw [List.getElem?_concat_length] at found
      rw [update_self, Option.some.inj found]
    · have inside : position < items.length := by
        have bound := (List.getElem?_eq_some_iff.mp found).1
        rw [List.length_append, List.length_singleton] at bound
        omega
      rw [List.getElem?_append_left inside] at found
      rw [update_of_ne (slot_ne inside (by omega))]
      exact window.live position held found after
  · rw [List.length_append, List.length_singleton] at free
    have different : items.length % size ≠ position % size := slot_ne (by omega) (by omega)
    rw [update_of_ne (Ne.symm different)]
    exact window.stale position (by omega) below

theorem Window.ready {item : Item} (next : items[consumed]? = some item) :
    slots (consumed % size) = (item, cycleAt size consumed) :=
  window.live consumed item next (Nat.le_refl _)

theorem Window.take (positive : 0 < size) (more : consumed < items.length) :
    Window size slots items (consumed + 1) := by
  have fits := window.fits
  refine ⟨more, by omega, fun position item found after => ?_, fun position free below => ?_⟩
  · exact window.live position item found (by omega)
  · by_cases inside : position < consumed + size
    · exact window.stale position free inside
    · obtain rfl : position = consumed + size := by omega
      rw [Nat.add_mod_right, window.ready (List.getElem?_eq_getElem more),
        cycleAt_add_size positive, Bool.not_not]

/-- The consumer sees that there is nothing to take. -/
theorem Window.waiting (positive : 0 < size) (all : consumed = items.length) :
    (slots (consumed % size)).2 = !cycleAt size consumed :=
  window.stale consumed (Nat.le_of_eq all.symm) (by omega)

end

end Rules

end CycleRing
