import Balrog.XhciEvents

/-!
# The order of events on the event ring

`__xhci_wait_event` looks at one entry of the ring again and again. When the cycle bit is the one
it expects, it takes the entry, moves on and reports the new place to the controller; the type it
waits for only decides whether it looks again. A run is any number of such looks, of any calls,
with the events that the controller posts in between. By the rules of the xHCI specification the
controller fills the entries in turn, with the cycle bit of its lap, and takes the ring for full
when the entry behind the next one is the reported one. The page of the ring is aligned.
-/

namespace Balrog.EventRing

open Runs Function CycleRing XhciRings XhciEvents List

/-- `XHCI_ERDP_EHB` -/
def xhciErdpEhb : BitVec 64 := 1 <<< 3

/-- The event ring, the register with the dequeue pointer, the events that were posted and those
that were taken. -/
structure Ring where
  event : XhciRing
  erdp : BitVec 64
  posted : List XhciTrb
  taken : List XhciTrb

/-- The address of an entry. -/
def entryAddress (physical : BitVec 64) (index : Nat) : BitVec 64 :=
  physical + BitVec.ofNat 64 (index * xhciTrbSize)

/-- One round of `__xhci_wait_event`. -/
def look (ring : Ring) : Ring :=
  let trb := ring.event.trbs ring.event.dequeue
  if hasCycle trb = ring.event.cycle then
    let event := nextEvent ring.event
    { ring with
      event := event
      erdp := entryAddress event.physical event.dequeue ||| xhciErdpEhb
      taken := ring.taken ++ [trb] }
  else ring

/-- The pointer in the register; the low bits are flags. -/
def reported (ring : Ring) : Nat := ring.erdp.toNat / 16 * 16

/-- The controller writes the next event, with the cycle bit of its lap. -/
def post (ring : Ring) (trb : XhciTrb) : Ring :=
  { ring with
    event := { ring.event with
      trbs := update ring.event.trbs (ring.posted.length % xhciRingTrbs)
        { trb with control := withCycle trb.control (cycleAt xhciRingTrbs ring.posted.length) } }
    posted := ring.posted ++ [trb] }

/-- What happens to the ring: the driver looks at it, or the controller posts an event. -/
inductive Call where
  | look
  | post (trb : XhciTrb)

/-- The ring is not full, as far as the controller knows. -/
def allowed (ring : Ring) : Call → Prop
  | .look => True
  | .post _ => reported ring ≠
      (entryAddress ring.event.physical ((ring.posted.length + 1) % xhciRingTrbs)).toNat

/-- One event of the ring; both kinds can always happen. -/
def step (ring : Ring) : Call → Option Ring
  | .look => some (look ring)
  | .post trb => some (post ring trb)

/-- The ring as `__xhci_ring_alloc` leaves it, and its address in the register. -/
def start (physical : BitVec 64) : Ring :=
  { event := xhciRingAlloc physical false, erdp := physical, posted := [], taken := [] }

/-- The ring from its allocation on, while the controller posts into free entries only. -/
def machine : Machine Ring Call where
  initial ring := ∃ physical : BitVec 64, physical.toNat % 4096 = 0 ∧ ring = start physical
  allowed := allowed
  step := step

/-- The ring holds what was posted and not yet taken, at the positions that follow from the counts.
-/
structure Invariant (ring : Ring) : Prop where
  aligned : ring.event.physical.toNat % 4096 = 0
  window : Window xhciRingTrbs (view ring.event.trbs) (ring.posted.map clear) ring.taken.length
  room : ring.posted.length < ring.taken.length + xhciRingTrbs
  reader : ring.event.dequeue = ring.taken.length % xhciRingTrbs ∧
    ring.event.cycle = cycleAt xhciRingTrbs ring.taken.length
  order : ring.taken.map clear <+: ring.posted.map clear
  pointer : reported ring =
    (entryAddress ring.event.physical (ring.taken.length % xhciRingTrbs)).toNat

section Addresses

variable {physical : BitVec 64} (aligned : physical.toNat % 4096 = 0) {index : Nat}
include aligned

theorem entryAddress_toNat (inside : index < xhciRingTrbs) :
    (entryAddress physical index).toNat = physical.toNat + 16 * index := by
  have small : index < 256 := inside
  have bound := physical.isLt
  rw [entryAddress, BitVec.toNat_add, BitVec.toNat_ofNat, xhciTrbSize]
  omega

/-- The flag does not disturb the pointer. -/
theorem entryAddress_flag (inside : index < xhciRingTrbs) :
    (entryAddress physical index ||| xhciErdpEhb).toNat / 16 * 16 =
      (entryAddress physical index).toNat := by
  have multiple : physical.toNat + 16 * index = 2 ^ 4 * (physical.toNat / 16 + index) := by omega
  rw [BitVec.toNat_or, entryAddress_toNat aligned inside, multiple, show xhciErdpEhb.toNat = 8 from
    rfl, ← Nat.two_pow_add_eq_or_of_lt (by decide)]
  omega

end Addresses

section Steps

variable {ring : Ring}

theorem look_invariant (invariant : Invariant ring) : Invariant (look ring) := by
  obtain ⟨aligned, window, room, reader, ⟨unread, order⟩, pointer⟩ := invariant
  rw [look]
  split
  · next ready =>
    have found := window_found window reader ready
    have next := nextEvent_reader reader.1 reader.2
    have page : (nextEvent ring.event).physical = ring.event.physical := by
      rw [nextEvent]
      split <;> rfl
    have more := (List.getElem?_eq_some_iff.mp found).1
    have taken : (ring.taken ++ [ring.event.trbs ring.event.dequeue]).length =
        ring.taken.length + 1 := length_append
    refine ⟨?_, ?_, ?_, ?_, ?_, ?_⟩
    · simp only [page, aligned]
    · simp only [nextEvent_trbs, taken]
      exact window.take trbs_positive more
    · simp only [taken]
      omega
    · simp only [taken]
      exact next
    · -- The first unread item is the entry that was found.
      simp only [map_append, ← order] at found ⊢
      rw [getElem?_append_right (Nat.le_of_eq (length_map _)), length_map, Nat.sub_self] at found
      cases unread with
      | nil => cases found
      | cons first rest =>
        obtain rfl := Option.some.inj found
        exact ⟨rest, by simp⟩
    · simp only [reported, taken, page, next.1]
      exact entryAddress_flag aligned (Nat.mod_lt _ trbs_positive)
  · exact ⟨aligned, window, room, reader, ⟨unread, order⟩, pointer⟩

theorem post_invariant (invariant : Invariant ring) {trb : XhciTrb}
    (permitted : allowed ring (.post trb)) : Invariant (post ring trb) := by
  obtain ⟨aligned, window, room, reader, order, pointer⟩ := invariant
  have behind := window.behind
  rw [length_map] at behind
  -- With one entry left the one behind it is the reported one.
  have free : ring.posted.length + 1 < ring.taken.length + xhciRingTrbs := by
    refine Nat.lt_of_le_of_ne room fun full => permitted ?_
    rw [pointer, full, Nat.add_mod_right]
  have length : (ring.posted.map clear).length = ring.posted.length := length_map _
  refine ⟨aligned, ?_, ?_, reader, ?_, pointer⟩
  · rw [post, map_append, map_singleton, ← length]
    exact window_posted window (by rw [length]; exact room) trb
  · rw [post, length_append]
    exact free
  · rw [post, map_append]
    exact order.trans (prefix_append _ _)

end Steps

theorem start_invariant {physical : BitVec 64} (aligned : physical.toNat % 4096 = 0) :
    Invariant (start physical) := by
  have room : 0 < 0 + xhciRingTrbs := by decide
  have lap : true = cycleAt xhciRingTrbs 0 := by decide
  refine ⟨aligned, Window.start fun index _ => ?_, room, ⟨rfl, lap⟩, prefix_rfl, ?_⟩
  · simp only [start, xhciRingAlloc, view, Bool.false_eq_true, if_false]
    decide
  · have first := @entryAddress_toNat _ aligned 0 trbs_positive
    refine Eq.trans ?_ first.symm
    simp only [reported, start]
    omega

theorem machine_invariant : Inductive machine Invariant where
  starts := by
    rintro ring ⟨physical, aligned, rfl⟩
    exact start_invariant aligned
  preserved := by
    intro ring call invariant permitted
    cases call with
    | look => exact ⟨_, rfl, look_invariant invariant⟩
    | post trb => exact ⟨_, rfl, post_invariant invariant permitted⟩

/-- A look takes an event as long as there is one. -/
theorem look_takes {ring : Ring} (invariant : Invariant ring)
    (more : ring.taken.length < ring.posted.length) :
    (look ring).taken.length = ring.taken.length + 1 := by
  have slot := invariant.window.ready (getElem?_eq_getElem (by rwa [length_map]))
  have ready : hasCycle (ring.event.trbs ring.event.dequeue) = ring.event.cycle := by
    rw [invariant.reader.1, invariant.reader.2]
    exact congrArg Prod.snd slot
  simp only [look, if_pos ready, length_append, length_singleton]

/-- In every run the events that were taken are the first of those that were posted, in order, a
look takes one more as long as there is one, and the reported pointer is the address of the entry
of the next event. -/
theorem events_in_order (ring : Ring) (reached : Reachable machine ring) :
    ring.taken.map clear <+: ring.posted.map clear ∧
    (ring.taken.length < ring.posted.length →
      (look ring).taken.length = ring.taken.length + 1) ∧
    reported ring =
      (entryAddress ring.event.physical (ring.taken.length % xhciRingTrbs)).toNat := by
  have invariant := machine_invariant.holds reached
  exact ⟨invariant.order, look_takes invariant, invariant.pointer⟩

/-- Three events are posted and two are looked at. -/
theorem events_in_order_two :
    reported (look (look (post (post (post (start 0x1000) ⟨1, 2, 0x8000⟩) ⟨3, 4, 0x8000⟩)
      ⟨5, 6, 0x8000⟩))) = 0x1020 := by
  have started : Reachable machine (start 0x1000) := .initial ⟨0x1000, by decide, rfl⟩
  have one := started.call (.post ⟨1, 2, 0x8000⟩) (by unfold machine allowed; decide) rfl
  have two := one.call (.post ⟨3, 4, 0x8000⟩) (by unfold machine allowed; decide) rfl
  have three := two.call (.post ⟨5, 6, 0x8000⟩) (by unfold machine allowed; decide) rfl
  have taken := (three.call .look trivial rfl).call .look trivial rfl
  exact (events_in_order _ taken).2.2.trans (by decide)

end Balrog.EventRing
