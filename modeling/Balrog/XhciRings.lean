import Balrog.CycleRing
import Balrog.Runs
import Mathlib.Logic.Function.Iterate

/-!
# Command and transfer rings of the xHCI driver

`__xhci_ring_push` writes a TRB to the next slot of a ring: first its parameter, then its
status, and last the control word with the cycle bit. The slot after the last usable one
holds a link TRB back to the head; it gets the cycle bit of the lap when the driver wraps,
and its toggle flag makes the controller flip its own bit as it follows the link.

The writes of a push are separate steps here, so the controller may look at the ring
between any two of them. What the controller does is the rule of the xHCI specification: it
waits while the bit of the slot at its position is not its own, follows a link TRB, and
takes any other TRB. A TRB that the driver pushes is not a link TRB.

Doorbells and the events that answer the TRBs are left out, and so is a page allocation
that fails.
-/

namespace Balrog.XhciRings

open Runs Function CycleRing List

/-- `xhci_trb_t` -/
structure XhciTrb where
  parameter : BitVec 64
  status : BitVec 32
  control : BitVec 32
deriving DecidableEq

/-- `XHCI_TRB_SIZE` -/
def xhciTrbSize : Nat := 16

/-- `XHCI_RING_TRBS` -/
def xhciRingTrbs : Nat := 4096 / xhciTrbSize

/-- `XHCI_RING_USABLE`, which is also the index of the link TRB. -/
def xhciRingUsable : Nat := xhciRingTrbs - 1

/-- `XHCI_TRB_LINK` -/
def xhciTrbLink : Nat := 6

/-- `XHCI_TRB_CYCLE` -/
def xhciTrbCycle : BitVec 32 := 1

/-- `XHCI_TRB_TC` -/
def xhciTrbTc : BitVec 32 := 2

/-- `XHCI_TRB_TYPE` -/
def xhciTrbType (type : Nat) : BitVec 32 := BitVec.ofNat 32 type <<< 10

/-- `XHCI_TRB_GET_TYPE` -/
def xhciTrbGetType (control : BitVec 32) : Nat := ((control >>> 10) &&& 0x3F).toNat

/-- `xhci_ring_t`; the page of the ring is part of it. -/
structure XhciRing where
  trbs : Nat → XhciTrb
  physical : BitVec 64
  enqueue : Nat
  dequeue : Nat
  cycle : Bool

/-- The cycle bit as the lowest bit of the control word. -/
def cycleWord (cycle : Bool) : BitVec 32 := if cycle then 1 else 0

/-- `(control & ~XHCI_TRB_CYCLE) | cycle` -/
def withCycle (control : BitVec 32) (cycle : Bool) : BitVec 32 :=
  (control &&& ~~~xhciTrbCycle) ||| cycleWord cycle

/-- `!!(control & XHCI_TRB_CYCLE)` -/
def hasCycle (trb : XhciTrb) : Bool := trb.control &&& xhciTrbCycle != 0

/-- `__xhci_ring_alloc` with the page that `pmm_calloc` returned. -/
def xhciRingAlloc (physical : BitVec 64) (link : Bool) : XhciRing :=
  let ring : XhciRing :=
    { trbs := fun _ => ⟨0, 0, 0⟩, physical := physical, enqueue := 0, dequeue := 0, cycle := true }
  if link then
    { ring with
      trbs := update ring.trbs xhciRingUsable
        ⟨physical, 0, xhciTrbType xhciTrbLink ||| xhciTrbTc ||| cycleWord ring.cycle⟩ }
  else ring

/-- `slot->parameter = trb->parameter;` -/
def writeParameter (ring : XhciRing) (trb : XhciTrb) : XhciRing :=
  { ring with
    trbs := update ring.trbs ring.enqueue
      { ring.trbs ring.enqueue with parameter := trb.parameter } }

/-- `slot->status = trb->status;` -/
def writeStatus (ring : XhciRing) (trb : XhciTrb) : XhciRing :=
  { ring with
    trbs := update ring.trbs ring.enqueue { ring.trbs ring.enqueue with status := trb.status } }

/-- The control word of the slot, and `ring->enqueue++`. -/
def writeControl (ring : XhciRing) (trb : XhciTrb) : XhciRing :=
  { ring with
    trbs := update ring.trbs ring.enqueue
      { ring.trbs ring.enqueue with control := withCycle trb.control ring.cycle }
    enqueue := ring.enqueue + 1 }

/-- The end of `__xhci_ring_push`: after the last usable slot the link TRB gets the cycle bit
of this lap. -/
def wrap (ring : XhciRing) : XhciRing :=
  if ring.enqueue = xhciRingUsable then
    { ring with
      trbs := update ring.trbs ring.enqueue
        { ring.trbs ring.enqueue with
          control := withCycle (ring.trbs ring.enqueue).control ring.cycle }
      cycle := !ring.cycle
      enqueue := 0 }
  else ring

/-- `__xhci_ring_push` -/
def xhciRingPush (ring : XhciRing) (trb : XhciTrb) : XhciRing :=
  wrap (writeControl (writeStatus (writeParameter ring trb) trb) trb)

/-- How far a push has got. -/
inductive Phase where
  | idle
  | parameter (trb : XhciTrb)
  | status (trb : XhciTrb)
  | control

/-- The ring, the push in progress, the position and cycle of the controller, the TRBs whose
control word has been written, and those the controller has taken. -/
structure System where
  ring : XhciRing
  phase : Phase
  index : Nat
  cycle : Bool
  pushed : List XhciTrb
  taken : List XhciTrb

/-- The next store of the push that is under way. -/
def advance (system : System) : System :=
  match system.phase with
  | .idle => system
  | .parameter trb => { system with ring := writeStatus system.ring trb, phase := .status trb }
  | .status trb =>
    { system with
      ring := writeControl system.ring trb
      phase := .control
      pushed := system.pushed ++ [trb] }
  | .control => { system with ring := wrap system.ring, phase := .idle }

/-- The controller looks at the slot at its position. -/
def fetch (system : System) : System :=
  let trb := system.ring.trbs system.index
  if hasCycle trb ≠ system.cycle then system
  else if xhciTrbGetType trb.control = xhciTrbLink then
    { system with
      index := (trb.parameter - system.ring.physical).toNat / xhciTrbSize
      cycle := if trb.control &&& xhciTrbTc ≠ 0 then !system.cycle else system.cycle }
  else { system with index := system.index + 1, taken := system.taken ++ [trb] }

/-- A push begins or goes on, or the controller takes an entry. -/
inductive Call where
  | push (trb : XhciTrb)
  | advance
  | fetch

/-- One event of the ring; a push begins with the store of the parameter. -/
def step (system : System) : Call → Option System
  | .push trb =>
    some { system with ring := writeParameter system.ring trb, phase := .parameter trb }
  | .advance => some (advance system)
  | .fetch => some (fetch system)

/-- One push at a time, of a TRB that is not a link TRB, while fewer TRBs are outstanding than the
ring holds. -/
def allowed (system : System) : Call → Prop
  | .push trb => system.phase = .idle ∧ xhciTrbGetType trb.control ≠ xhciTrbLink ∧
    system.pushed.length < system.taken.length + xhciRingUsable
  | .advance | .fetch => True

/-- A push leaves a slot of the ring free. -/
def Spare (system : System) : Call → Prop
  | .push _ => system.pushed.length + 1 < system.taken.length + xhciRingUsable
  | .advance | .fetch => True

/-- A ring as `__xhci_ring_alloc` leaves it, and a controller at its head with cycle 1. -/
def start (physical : BitVec 64) : System :=
  { ring := xhciRingAlloc physical true, phase := .idle, index := 0, cycle := true,
    pushed := [], taken := [] }

/-- The runs of a driver and a controller whose steps meet a condition. -/
def machine (condition : System → Call → Prop) : Machine System Call where
  initial system := ∃ physical, system = start physical
  allowed system call := allowed system call ∧ condition system call
  step := step

/-- An entry without its cycle bit, which is all that the ring changes of it. -/
def clear (trb : XhciTrb) : XhciTrb := { trb with control := trb.control &&& ~~~xhciTrbCycle }

/-- The controller has taken the first of the pushed TRBs, each once and in order, and takes the
others when it looks often enough. -/
def InOrder (system : System) : Prop :=
  (∃ rest, system.pushed.map clear = system.taken.map clear ++ rest) ∧
  ∀ rounds, 2 * (system.pushed.length - system.taken.length) ≤ rounds →
    ((fetch^[rounds]) system).taken.map clear = system.pushed.map clear

section Words

variable (control : BitVec 32) (cycle : Bool) (trb : XhciTrb)

/-- The cycle bit that was written is read back. -/
theorem withCycle_bit : withCycle control cycle &&& xhciTrbCycle = cycleWord cycle := by
  have old : control &&& ~~~xhciTrbCycle &&& xhciTrbCycle = 0 := by
    rw [BitVec.and_assoc]
    exact BitVec.and_zero
  have word : cycleWord cycle &&& xhciTrbCycle = cycleWord cycle := by
    cases cycle <;> decide
  rw [withCycle, BitVec.and_or_distrib_right, old, word]
  exact BitVec.zero_or

/-- Writing the cycle bit leaves the rest of the control word alone. -/
theorem withCycle_rest :
    withCycle control cycle &&& ~~~xhciTrbCycle = control &&& ~~~xhciTrbCycle := by
  have word : cycleWord cycle &&& ~~~xhciTrbCycle = 0 := by
    cases cycle <;> decide
  rw [withCycle, BitVec.and_or_distrib_right, BitVec.and_assoc, BitVec.and_self, word]
  exact BitVec.or_zero

/-- The type of an entry does not depend on its cycle bit. -/
theorem type_clear : xhciTrbGetType (control &&& ~~~xhciTrbCycle) = xhciTrbGetType control := by
  rw [xhciTrbGetType, BitVec.ushiftRight_and_distrib, BitVec.and_assoc]
  rfl

/-- The toggle bit does not depend on the cycle bit. -/
theorem toggle_clear : control &&& ~~~xhciTrbCycle &&& xhciTrbTc = control &&& xhciTrbTc := by
  rw [BitVec.and_assoc]
  rfl

theorem hasCycle_with : hasCycle { trb with control := withCycle control cycle } = cycle := by
  rw [hasCycle, withCycle_bit]
  cases cycle <;> decide

end Words

/-- The cycle bit does not change the type. -/
theorem same_type {first second : XhciTrb} (same : clear first = clear second) :
    xhciTrbGetType first.control = xhciTrbGetType second.control := by
  have controls : first.control &&& ~~~xhciTrbCycle = second.control &&& ~~~xhciTrbCycle :=
    congrArg XhciTrb.control same
  rw [← type_clear, controls, type_clear]

/-- A slot as a slot of a ring with cycle bits. -/
def view (trbs : Nat → XhciTrb) (index : Nat) : XhciTrb × Bool :=
  (clear (trbs index), hasCycle (trbs index))

/-- The ring in the terms of the library after one entry has been written. -/
theorem view_update (trbs : Nat → XhciTrb) (index : Nat) (trb : XhciTrb) :
    view (update trbs index trb) = update (view trbs) index (clear trb, hasCycle trb) := by
  funext probe
  rw [update_apply, view, update_apply]
  split <;> rfl

/-- The link TRB leads to the head and toggles; `laps` is the number of laps it has seen end. -/
structure Link (trb : XhciTrb) (physical : BitVec 64) (laps : Nat) : Prop where
  target : trb.parameter = physical
  type : xhciTrbGetType trb.control = xhciTrbLink
  toggles : trb.control &&& xhciTrbTc ≠ 0
  cycle : hasCycle trb = lapCycle (laps - 1)

/-- Where the driver is, by the phase of its push and the number of TRBs that are written. -/
def Producer (system : System) : Prop :=
  match system.phase with
  | .control => ∃ before, system.pushed.length = before + 1 ∧
    system.ring.enqueue = before % xhciRingUsable + 1 ∧
    system.ring.cycle = cycleAt xhciRingUsable before ∧
    Link (system.ring.trbs xhciRingUsable) system.ring.physical (before / xhciRingUsable)
  | .idle => system.ring.enqueue = system.pushed.length % xhciRingUsable ∧
    system.ring.cycle = cycleAt xhciRingUsable system.pushed.length ∧
    Link (system.ring.trbs xhciRingUsable) system.ring.physical
      (system.pushed.length / xhciRingUsable)
  | .parameter trb => system.ring.enqueue = system.pushed.length % xhciRingUsable ∧
    system.ring.cycle = cycleAt xhciRingUsable system.pushed.length ∧
    Link (system.ring.trbs xhciRingUsable) system.ring.physical
      (system.pushed.length / xhciRingUsable) ∧
    xhciTrbGetType trb.control ≠ xhciTrbLink ∧
    (system.ring.trbs system.ring.enqueue).parameter = trb.parameter ∧
    system.pushed.length + 1 < system.taken.length + xhciRingUsable
  | .status trb => system.ring.enqueue = system.pushed.length % xhciRingUsable ∧
    system.ring.cycle = cycleAt xhciRingUsable system.pushed.length ∧
    Link (system.ring.trbs xhciRingUsable) system.ring.physical
      (system.pushed.length / xhciRingUsable) ∧
    xhciTrbGetType trb.control ≠ xhciTrbLink ∧
    (system.ring.trbs system.ring.enqueue).parameter = trb.parameter ∧
    (system.ring.trbs system.ring.enqueue).status = trb.status ∧
    system.pushed.length + 1 < system.taken.length + xhciRingUsable

/-- The controller is at the slot of the next TRB, or still at the link in front of it. -/
def Consumer (system : System) : Prop :=
  (system.index = system.taken.length % xhciRingUsable ∧
    system.cycle = cycleAt xhciRingUsable system.taken.length) ∨
  ∃ lap, system.taken.length = xhciRingUsable * (lap + 1) ∧ system.index = xhciRingUsable ∧
    system.cycle = lapCycle lap

/-- The slots hold the TRBs that are outstanding, and both sides are where the numbers of TRBs
say. -/
structure Invariant (system : System) : Prop where
  window : Window xhciRingUsable (view system.ring.trbs) (system.pushed.map clear)
    system.taken.length
  order : system.taken.map clear = (system.pushed.map clear).take system.taken.length
  work : ∀ trb ∈ system.pushed, xhciTrbGetType trb.control ≠ xhciTrbLink
  room : system.pushed.length < system.taken.length + xhciRingUsable
  producer : Producer system
  consumer : Consumer system

theorem usable_positive : 0 < xhciRingUsable := by decide

/-- The invariant holds of a new ring. -/
theorem start_invariant (physical : BitVec 64) : Invariant (start physical) := by
  have slots : ∀ index < xhciRingUsable,
      (view (start physical).ring.trbs index).2 = false := by
    intro index below
    have other : index ≠ xhciRingUsable := Nat.ne_of_lt below
    simp only [start, xhciRingAlloc, if_true, view, update_of_ne other]
    rfl
  have word : (start physical).ring.trbs xhciRingUsable =
      ⟨physical, 0, xhciTrbType xhciTrbLink ||| xhciTrbTc ||| cycleWord true⟩ := by
    simp only [start, xhciRingAlloc, if_true, update_self]
  have type : xhciTrbGetType (xhciTrbType xhciTrbLink ||| xhciTrbTc ||| cycleWord true) =
      xhciTrbLink := by decide
  have toggles : (xhciTrbType xhciTrbLink ||| xhciTrbTc ||| cycleWord true) &&& xhciTrbTc ≠ 0 := by
    decide
  have link : Link ((start physical).ring.trbs xhciRingUsable) physical (0 / xhciRingUsable) := by
    have bit : ((xhciTrbType xhciTrbLink ||| xhciTrbTc ||| cycleWord true) &&& xhciTrbCycle != 0) =
        lapCycle (0 / xhciRingUsable - 1) := by decide
    rw [word]
    exact ⟨rfl, type, toggles, bit⟩
  have room : 0 < 0 + xhciRingUsable := by decide
  have place : 0 = 0 % xhciRingUsable := rfl
  have lap : true = cycleAt xhciRingUsable 0 := by decide
  exact ⟨Window.start slots, rfl, fun trb member => absurd member not_mem_nil, room,
    ⟨place, lap, link⟩, .inl ⟨place, lap⟩⟩

variable {physical : BitVec 64} {laps lap index consumed : Nat} {system : System}

section Steps

/-- A write to the slot of a TRB leaves the link alone. -/
theorem Link.keep {trbs : Nat → XhciTrb} (link : Link (trbs xhciRingUsable) physical laps)
    (slot : index = consumed % xhciRingUsable) (trb : XhciTrb) :
    Link (update trbs index trb xhciRingUsable) physical laps := by
  have below : index < xhciRingUsable := by
    rw [slot]
    exact Nat.mod_lt _ usable_positive
  rw [update_of_ne (Ne.symm (Nat.ne_of_lt below))]
  exact link

/-- A change of the fields before the control word does not show. -/
theorem window_prepare (invariant : Invariant system)
    (enqueue : system.ring.enqueue = system.pushed.length % xhciRingUsable) (trb : XhciTrb)
    (control : trb.control = (system.ring.trbs system.ring.enqueue).control) :
    Window xhciRingUsable (view (update system.ring.trbs system.ring.enqueue trb))
      (system.pushed.map clear) system.taken.length := by
  have same : hasCycle trb = (view system.ring.trbs system.ring.enqueue).2 := by
    rw [hasCycle, control]
    rfl
  have index : system.ring.enqueue = (system.pushed.map clear).length % xhciRingUsable := by
    rw [length_map, enqueue]
  rw [view_update, same, index]
  refine invariant.window.prepare ?_ (clear trb)
  rw [length_map]
  exact invariant.room

variable {trb : XhciTrb}

/-- The first store of a push keeps the invariant: the entry's cycle bit is still that of the last
lap. -/
theorem push_invariant (invariant : Invariant system) (permitted : allowed system (.push trb))
    (room : Spare system (.push trb)) :
    Invariant { system with ring := writeParameter system.ring trb, phase := .parameter trb } := by
  obtain ⟨idle, work, _⟩ := permitted
  have producer := invariant.producer
  rw [Producer, idle] at producer
  obtain ⟨enqueue, cycle, link⟩ := producer
  refine ⟨window_prepare invariant enqueue _ rfl, invariant.order, invariant.work, invariant.room,
    ⟨enqueue, cycle, link.keep enqueue _, work, ?_, room⟩, invariant.consumer⟩
  simp [writeParameter]

/-- So does the second store. -/
theorem status_invariant (invariant : Invariant system) (phase : system.phase = .parameter trb) :
    Invariant { system with ring := writeStatus system.ring trb, phase := .status trb } := by
  have producer := invariant.producer
  rw [Producer, phase] at producer
  obtain ⟨enqueue, cycle, link, work, parameter, room⟩ := producer
  refine ⟨window_prepare invariant enqueue _ rfl, invariant.order, invariant.work, invariant.room,
    ⟨enqueue, cycle, link.keep enqueue _, work, ?_, ?_, room⟩, invariant.consumer⟩
  · simp [writeStatus, parameter]
  · simp [writeStatus]

/-- The third store makes the entry visible, as the next of those pushed. -/
theorem control_invariant (invariant : Invariant system) (phase : system.phase = .status trb) :
    Invariant { system with
      ring := writeControl system.ring trb
      phase := .control
      pushed := system.pushed ++ [trb] } := by
  have producer := invariant.producer
  rw [Producer, phase] at producer
  obtain ⟨enqueue, cycle, link, work, parameter, status, room⟩ := producer
  have behind := invariant.window.behind
  rw [length_map] at behind
  refine ⟨?_, ?_, ?_, ?_, ⟨system.pushed.length, ?_, ?_, cycle, link.keep enqueue _⟩,
    invariant.consumer⟩
  · have index : system.ring.enqueue = (system.pushed.map clear).length % xhciRingUsable := by
      rw [length_map, enqueue]
    have bit : system.ring.cycle = cycleAt xhciRingUsable (system.pushed.map clear).length := by
      rw [length_map, cycle]
    have whole : clear { system.ring.trbs system.ring.enqueue with
        control := withCycle trb.control system.ring.cycle } = clear trb := by
      rw [clear, withCycle_rest, parameter, status]
      rfl
    rw [writeControl, map_append, map_singleton, view_update, whole, hasCycle_with,
      index, bit]
    refine invariant.window.write ?_ (clear trb)
    rw [length_map]
    exact invariant.room
  · rw [map_append, take_append_of_le_length]
    · exact invariant.order
    · rw [length_map]
      exact behind
  · exact forall_mem_append.mpr ⟨invariant.work, forall_mem_singleton.mpr work⟩
  · rw [length_append, length_singleton]
    exact room
  · rw [length_append, length_singleton]
  · rw [writeControl, enqueue]

/-- The link gets the bit of the lap that ends. -/
theorem Link.wrapped (link : Link trb physical laps) (before : Nat) :
    Link { trb with control := withCycle trb.control (lapCycle before) } physical (before + 1) := by
  refine ⟨link.target, ?_, ?_, ?_⟩
  · rw [← type_clear, withCycle_rest, type_clear]
    exact link.type
  · rw [← toggle_clear, withCycle_rest, toggle_clear]
    exact link.toggles
  · rw [hasCycle_with, Nat.add_sub_cancel]

/-- At the end of the ring the link entry is written and the next lap begins. -/
theorem wrap_invariant (invariant : Invariant system) (phase : system.phase = .control) :
    Invariant { system with ring := wrap system.ring, phase := .idle } := by
  have producer := invariant.producer
  rw [Producer, phase] at producer
  obtain ⟨before, length, enqueue, cycle, link⟩ := producer
  by_cases last : system.ring.enqueue = xhciRingUsable
  · obtain ⟨slot, lap⟩ := succ_wraps (enqueue.symm.trans last)
    rw [wrap, if_pos last, last]
    refine ⟨?_, invariant.order, invariant.work, invariant.room, ⟨?_, ?_, ?_⟩, invariant.consumer⟩
    · refine invariant.window.congr usable_positive fun index below => ?_
      have other : index ≠ xhciRingUsable := Nat.ne_of_lt below
      simp only [view, update_of_ne other]
    · exact (length ▸ slot).symm
    · simp only [length]
      rw [cycle, cycleAt, cycleAt, lap, lapCycle_succ]
    · have bit : system.ring.cycle = lapCycle (before / xhciRingUsable) := cycle
      simp only [length, update_self]
      rw [lap, bit]
      exact link.wrapped _
  · have inner : before % xhciRingUsable + 1 ≠ xhciRingUsable := by
      rw [← enqueue]
      exact last
    obtain ⟨slot, lap⟩ := succ_stays usable_positive inner
    rw [wrap, if_neg last]
    refine { invariant with producer := ⟨?_, ?_, ?_⟩ }
    · rw [length, slot, enqueue]
    · rw [length, cycle, cycleAt, cycleAt, lap]
    · rw [length, lap]
      exact link

/-- Every store of a push keeps the invariant. -/
theorem advance_invariant (invariant : Invariant system) : Invariant (advance system) := by
  cases phase : system.phase with
  | idle =>
    rw [advance, phase]
    exact invariant
  | parameter trb =>
    rw [advance, phase]
    exact status_invariant invariant phase
  | status trb =>
    rw [advance, phase]
    exact control_invariant invariant phase
  | control =>
    rw [advance, phase]
    exact wrap_invariant invariant phase

/-- What the link looks like, whatever the driver is doing. -/
theorem producer_link (producer : Producer system) :
    Link (system.ring.trbs xhciRingUsable) system.ring.physical
        (system.pushed.length / xhciRingUsable) ∨
      ∃ before, system.pushed.length = before + 1 ∧
        Link (system.ring.trbs xhciRingUsable) system.ring.physical
          (before / xhciRingUsable) := by
  unfold Producer at producer
  split at producer
  · obtain ⟨before, length, _, _, link⟩ := producer
    exact .inr ⟨before, length, link⟩
  · exact .inl producer.2.2
  · exact .inl producer.2.2.1
  · exact .inl producer.2.2.1

section

variable (invariant : Invariant system)
include invariant

/-- The controller at the slot of a TRB that is pushed takes it. -/
theorem fetch_takes (index : system.index = system.taken.length % xhciRingUsable)
    (cycle : system.cycle = cycleAt xhciRingUsable system.taken.length)
    (more : system.taken.length < system.pushed.length) :
    fetch system = { system with
        index := system.index + 1
        taken := system.taken ++ [system.ring.trbs system.index] } ∧
      clear (system.ring.trbs system.index) = clear (system.pushed.get ⟨_, more⟩) := by
  have next : (system.pushed.map clear)[system.taken.length]? =
      some (clear (system.pushed.get ⟨_, more⟩)) := by
    rw [getElem?_map, getElem?_eq_getElem more]
    rfl
  have slot := invariant.window.ready next
  rw [← index, ← cycle] at slot
  obtain ⟨item, bit⟩ := Prod.mk.inj slot
  refine ⟨?_, item⟩
  have work : xhciTrbGetType (system.ring.trbs system.index).control ≠ xhciTrbLink := by
    rw [same_type item]
    exact invariant.work _ (get_mem _ _)
  rw [fetch]
  rw [if_neg (not_not_intro bit), if_neg work]

/-- The controller at the slot behind the last TRB waits. -/
theorem fetch_waits (index : system.index = system.taken.length % xhciRingUsable)
    (cycle : system.cycle = cycleAt xhciRingUsable system.taken.length)
    (all : system.taken.length = system.pushed.length) : fetch system = system := by
  have slot := invariant.window.waiting usable_positive (by rw [length_map, all])
  rw [← index, ← cycle] at slot
  have bit : hasCycle (system.ring.trbs system.index) = !system.cycle := slot
  rw [fetch]
  rw [bit, if_pos (by cases system.cycle <;> decide)]

/-- The controller at the link waits or goes to the head of the next lap, which it does when
there is a TRB to take. -/
theorem fetch_link (length : system.taken.length = xhciRingUsable * (lap + 1))
    (index : system.index = xhciRingUsable) (cycle : system.cycle = lapCycle lap) :
    (fetch system = system ∧ system.taken.length = system.pushed.length) ∨
      fetch system = { system with index := 0, cycle := lapCycle (lap + 1) } := by
  have behind := invariant.window.behind
  have room := invariant.room
  rw [length_map] at behind
  have laps : system.pushed.length / xhciRingUsable = lap + 1 := by
    refine (Nat.div_eq_iff usable_positive).mpr ⟨?_, ?_⟩
    · rw [Nat.mul_comm, ← length]
      exact behind
    · rw [Nat.mul_comm, ← length]
      omega
  have follows
      (link : Link (system.ring.trbs xhciRingUsable) system.ring.physical (lap + 1) ∨
        Link (system.ring.trbs xhciRingUsable) system.ring.physical lap)
      (bit : hasCycle (system.ring.trbs xhciRingUsable) = system.cycle) :
      fetch system = { system with index := 0, cycle := lapCycle (lap + 1) } := by
    obtain ⟨target, type, toggles⟩ :
        (system.ring.trbs xhciRingUsable).parameter = system.ring.physical ∧
        xhciTrbGetType (system.ring.trbs xhciRingUsable).control = xhciTrbLink ∧
        (system.ring.trbs xhciRingUsable).control &&& xhciTrbTc ≠ 0 := by
      rcases link with link | link
      · exact ⟨link.target, link.type, link.toggles⟩
      · exact ⟨link.target, link.type, link.toggles⟩
    rw [fetch]
    simp only [index]
    rw [if_neg (not_not_intro bit), if_pos type, if_pos toggles, target, BitVec.sub_self, cycle,
      lapCycle_succ]
    rfl
  rcases producer_link invariant.producer with link | ⟨before, pushed, link⟩
  · rw [laps] at link
    exact .inr (follows (.inl link) (link.cycle.trans (by rw [Nat.add_sub_cancel, cycle])))
  · by_cases same : before / xhciRingUsable = lap + 1
    · rw [same] at link
      exact .inr (follows (.inl link) (link.cycle.trans (by rw [Nat.add_sub_cancel, cycle])))
    · -- The driver has written the last slot of this lap, but not yet the link.
      have all : before + 1 = xhciRingUsable * (lap + 1) := by
        by_contra different
        refine same ((Nat.div_eq_iff usable_positive).mpr ⟨?_, ?_⟩)
        · rw [Nat.mul_comm]
          omega
        · rw [Nat.mul_comm]
          omega
      have previous : before / xhciRingUsable = lap := by
        refine (Nat.div_eq_iff usable_positive).mpr ⟨?_, ?_⟩
        · rw [Nat.mul_comm]
          rw [Nat.mul_add, Nat.mul_one] at all
          have positive := usable_positive
          omega
        · rw [Nat.mul_comm]
          rw [Nat.mul_add, Nat.mul_one] at all
          omega
      rw [previous] at link
      by_cases bit : hasCycle (system.ring.trbs xhciRingUsable) = system.cycle
      · exact .inr (follows (.inr link) bit)
      · refine .inl ⟨?_, by omega⟩
        rw [fetch]
        simp only [index]
        rw [if_pos bit]

/-- The controller takes the oldest entry. -/
theorem taken_invariant (index : system.index = system.taken.length % xhciRingUsable)
    (cycle : system.cycle = cycleAt xhciRingUsable system.taken.length)
    (more : system.taken.length < system.pushed.length)
    (item : clear (system.ring.trbs system.index) = clear (system.pushed.get ⟨_, more⟩)) :
    Invariant { system with
      index := system.index + 1
      taken := system.taken ++ [system.ring.trbs system.index] } := by
  have room := invariant.room
  have length (trb : XhciTrb) : (system.taken ++ [trb]).length = system.taken.length + 1 := by
    rw [length_append, length_singleton]
  refine ⟨?_, ?_, invariant.work, ?_, ?_, ?_⟩
  · simp only [length]
    refine invariant.window.take usable_positive ?_
    rw [length_map]
    exact more
  · simp only [length]
    rw [map_append, map_singleton, invariant.order, item, take_add_one,
      getElem?_map, getElem?_eq_getElem more]
    rfl
  · simp only [length]
    omega
  · have producer := invariant.producer
    cases phase : system.phase with
    | idle =>
      simp only [Producer, phase] at producer ⊢
      exact producer
    | control =>
      simp only [Producer, phase] at producer ⊢
      exact producer
    | parameter trb =>
      simp only [Producer, phase, length] at producer ⊢
      obtain ⟨enqueue, sameCycle, link, work, parameter, fewer⟩ := producer
      exact ⟨enqueue, sameCycle, link, work, parameter, by omega⟩
    | status trb =>
      simp only [Producer, phase, length] at producer ⊢
      obtain ⟨enqueue, sameCycle, link, work, parameter, status, fewer⟩ := producer
      exact ⟨enqueue, sameCycle, link, work, parameter, status, by omega⟩
  · by_cases last : system.taken.length % xhciRingUsable + 1 = xhciRingUsable
    · obtain ⟨slot, lap⟩ := succ_wraps last
      refine .inr ⟨system.taken.length / xhciRingUsable, ?_, ?_, ?_⟩
      · simp only [length]
        rw [← lap, ← Nat.div_add_mod (system.taken.length + 1) xhciRingUsable, slot, Nat.add_zero,
          Nat.mul_div_right _ usable_positive]
      · simp only [index]
        exact last
      · exact cycle
    · obtain ⟨slot, lap⟩ := succ_stays usable_positive last
      refine .inl ⟨?_, ?_⟩
      · simp only [length]
        rw [slot, index]
      · simp only [length]
        rw [cycleAt, lap]
        exact cycle

/-- The controller follows the link entry into the next lap. -/
theorem linked_invariant (length : system.taken.length = xhciRingUsable * (lap + 1)) :
    Invariant { system with index := 0, cycle := lapCycle (lap + 1) } := by
  refine { invariant with consumer := .inl ⟨?_, ?_⟩ }
  · simp only [length]
    rw [Nat.mul_mod_right]
  · simp only [length]
    rw [cycleAt, Nat.mul_div_right _ usable_positive]

/-- A look of the controller keeps the invariant. -/
theorem fetch_invariant : Invariant (fetch system) := by
  have behind := invariant.window.behind
  rw [length_map] at behind
  rcases invariant.consumer with ⟨index, cycle⟩ | ⟨lap, length, index, cycle⟩
  · rcases Nat.lt_or_eq_of_le behind with more | all
    · obtain ⟨result, item⟩ := fetch_takes invariant index cycle more
      rw [result]
      exact taken_invariant invariant index cycle more item
    · rw [fetch_waits invariant index cycle all]
      exact invariant
  · rcases fetch_link invariant length index cycle with ⟨result, _⟩ | result
    · rw [result]
      exact invariant
    · rw [result]
      exact linked_invariant invariant length

end

end Steps

/-- Every event keeps driver and controller in step. -/
theorem machine_invariant : Inductive (machine Spare) Invariant where
  starts := by
    rintro _ ⟨physical, rfl⟩
    exact start_invariant physical
  preserved := by
    intro system call invariant permitted
    cases call with
    | push trb => exact ⟨_, rfl, push_invariant invariant permitted.1 permitted.2⟩
    | advance => exact ⟨_, rfl, advance_invariant invariant⟩
    | fetch => exact ⟨_, rfl, fetch_invariant invariant⟩

/-- When as many TRBs are taken as are pushed, they are the same. -/
theorem all_taken {system : System} (invariant : Invariant system)
    (all : system.taken.length = system.pushed.length) :
    system.taken.map clear = system.pushed.map clear := by
  rw [invariant.order, all, take_of_length_le (Nat.le_of_eq (length_map _))]

/-- The controller takes all that is pushed. Each look either takes a TRB or passes a link, and
no two links follow each other: a controller that is not at a link saves one look. -/
theorem fetch_all (rounds : Nat) (invariant : Invariant system)
    (enough : 2 * (system.pushed.length - system.taken.length) ≤
      rounds + if system.index = xhciRingUsable then 0 else 1) :
    ((fetch^[rounds]) system).taken.map clear = system.pushed.map clear := by
  induction rounds generalizing system with
  | zero =>
    have behind := invariant.window.behind
    rw [length_map] at behind
    rw [iterate_zero, id_eq]
    refine all_taken invariant ?_
    split at enough <;> omega
  | succ rounds ih =>
    have behind := invariant.window.behind
    rw [length_map] at behind
    rw [iterate_succ_apply]
    have keeps := fetch_invariant invariant
    have finish {after : System} (result : fetch system = after)
        (pushed : after.pushed = system.pushed)
        (fewer : 2 * (after.pushed.length - after.taken.length) ≤
          rounds + if after.index = xhciRingUsable then 0 else 1) :
        ((fetch^[rounds]) (fetch system)).taken.map clear = system.pushed.map clear := by
      rw [result] at keeps ⊢
      rw [← pushed]
      exact ih keeps fewer
    rcases invariant.consumer with ⟨index, cycle⟩ | ⟨lap, length, index, cycle⟩
    · rcases Nat.lt_or_eq_of_le behind with more | all
      · obtain ⟨result, _⟩ := fetch_takes invariant index cycle more
        refine finish result rfl ?_
        simp only [length_append, length_singleton]
        split at enough <;> split <;> omega
      · refine finish (fetch_waits invariant index cycle all) rfl ?_
        omega
    · rw [if_pos index] at enough
      rcases fetch_link invariant length index cycle with ⟨result, all⟩ | result
      · refine finish result rfl ?_
        omega
      · refine finish result rfl ?_
        have other : (0 : Nat) ≠ xhciRingUsable := by decide
        simp only [if_neg other]
        omega

/-- As long as every push leaves a slot free, the controller reads across any number of wraps exactly
the TRBs that were pushed, each once and in the order of the pushes. -/
theorem ring_in_order (system : System) (reached : Reachable (machine Spare) system) :
    InOrder system := by
  have invariant := machine_invariant.holds reached
  refine ⟨⟨(system.pushed.map clear).drop system.taken.length, ?_⟩, fun rounds enough => ?_⟩
  · rw [invariant.order, take_append_drop]
  · exact fetch_all rounds invariant (Nat.le_add_right_of_le enough)

section WholeLaps

variable {condition : System → Call → Prop}

/-- A push from its first write to its last. -/
def pushWhole (system : System) (trb : XhciTrb) : System :=
  advance (advance (advance
    { system with ring := writeParameter system.ring trb, phase := .parameter trb }))

/-- A push appends its TRB, and leaves the controller where it is. -/
theorem pushWhole_spec (system : System) (trb : XhciTrb) :
    (pushWhole system trb).phase = .idle ∧ (pushWhole system trb).pushed = system.pushed ++ [trb] ∧
      (pushWhole system trb).taken = system.taken ∧ (pushWhole system trb).index = system.index ∧
      (pushWhole system trb).cycle = system.cycle :=
  ⟨rfl, rfl, rfl, rfl, rfl⟩

/-- A whole push, store after store, leads to a reachable state. -/
theorem pushWhole_reachable (trb : XhciTrb) (reached : Reachable (machine condition) system)
    (permitted : allowed system (.push trb)) (meets : condition system (.push trb))
    (others : ∀ system, condition system .advance) :
    Reachable (machine condition) (pushWhole system trb) :=
  (((reached.call (.push trb) ⟨permitted, meets⟩ rfl).call .advance ⟨trivial, others _⟩ rfl).call
    .advance ⟨trivial, others _⟩ rfl).call .advance ⟨trivial, others _⟩ rfl

/-- A TRB that is no link TRB. -/
def sample : XhciTrb := ⟨1, 2, 0x5C00⟩

/-- The driver and the controller after some pushes and looks of the first lap: the controller has
taken so many TRBs and has not passed the link. -/
structure FirstLap (system : System) (pushed taken : Nat) : Prop where
  reached : Reachable (machine Spare) system
  idle : system.phase = .idle
  pushes : system.pushed.length = pushed
  takes : system.taken.length = taken
  index : system.index = taken
  cycle : system.cycle = true

/-- A push while a slot stays free. -/
theorem FirstLap.push {pushed taken : Nat} (lap : FirstLap system pushed taken)
    (room : pushed + 1 < taken + xhciRingUsable) :
    FirstLap (pushWhole system sample) (pushed + 1) taken := by
  obtain ⟨idle, isPushed, isTaken, index, cycle⟩ := pushWhole_spec system sample
  have free : system.pushed.length + 1 < system.taken.length + xhciRingUsable := by
    rw [lap.pushes, lap.takes]
    exact room
  refine ⟨pushWhole_reachable sample lap.reached ⟨lap.idle, by decide, by omega⟩ free
    fun _ => trivial, idle, ?_, ?_, index.trans lap.index, cycle.trans lap.cycle⟩
  · rw [isPushed, length_append, lap.pushes]
    rfl
  · rw [isTaken, lap.takes]

/-- A look of the controller before the end of the lap takes a TRB. -/
theorem FirstLap.fetch {pushed taken : Nat} (lap : FirstLap system pushed taken)
    (more : taken < pushed) (inLap : taken < xhciRingUsable) :
    FirstLap (XhciRings.fetch system) pushed (taken + 1) := by
  have invariant := machine_invariant.holds lap.reached
  have index : system.index = system.taken.length % xhciRingUsable := by
    rw [lap.index, lap.takes, Nat.mod_eq_of_lt inLap]
  have cycle : system.cycle = cycleAt xhciRingUsable system.taken.length := by
    rw [lap.cycle, lap.takes, cycleAt, Nat.div_eq_of_lt inLap]
    rfl
  obtain ⟨result, _⟩ := fetch_takes invariant index cycle (by rw [lap.takes, lap.pushes]; exact more)
  have reached := lap.reached.call .fetch ⟨trivial, trivial⟩ rfl
  rw [result] at reached ⊢
  refine ⟨reached, lap.idle, lap.pushes, ?_, ?_, lap.cycle⟩
  · rw [length_append, lap.takes]
    rfl
  · rw [← lap.index]

/-- Some TRBs are pushed and each is taken. -/
theorem firstLap_exists (count : Nat) (inLap : count ≤ xhciRingUsable) :
    ∃ system, FirstLap system count count := by
  induction count with
  | zero => exact ⟨start 0x1000, .initial ⟨0x1000, rfl⟩, rfl, rfl, rfl, rfl, rfl⟩
  | succ count ih =>
    obtain ⟨system, lap⟩ := ih (Nat.le_of_succ_le inLap)
    have usable : 2 ≤ xhciRingUsable := by decide
    have pushed := lap.push (by omega)
    exact ⟨_, pushed.fetch (Nat.lt_succ_self count) inLap⟩

/-- The controller waits at the link, and the driver fills all slots but one. -/
theorem secondLap_exists (count : Nat) (room : count + 1 ≤ xhciRingUsable) :
    ∃ system, FirstLap system (xhciRingUsable + count) xhciRingUsable := by
  induction count with
  | zero => exact firstLap_exists xhciRingUsable (Nat.le_refl _)
  | succ count ih =>
    obtain ⟨system, lap⟩ := ih (by omega)
    exact ⟨_, lap.push (by omega)⟩

/-- A lap of TRBs is taken, and all but one of the slots of the next lap are filled. -/
theorem ring_in_order_lap : ∃ system : System, system.pushed.length = 509 ∧
    system.taken.length = 255 ∧ InOrder system := by
  obtain ⟨system, lap⟩ := secondLap_exists 254 (by decide)
  exact ⟨system, lap.pushes, lap.takes, ring_in_order system lap.reached⟩

/-- The controller has taken the 255 TRBs of the first lap and stands at the link, and 255 TRBs more
are pushed. The last of them sets the cycle bit of the link to that of the second lap, so the
controller waits there for ever. -/
theorem ring_stops : ∃ system, Reachable (machine fun _ _ => True) system ∧
    system.pushed.length = 510 ∧ system.taken.length = 255 ∧
    (∀ rounds, (fetch^[rounds]) system = system) ∧ ¬ InOrder system := by
  obtain ⟨system, lap⟩ := secondLap_exists 254 (by decide)
  have producer := (machine_invariant.holds lap.reached).producer
  rw [Producer, lap.idle] at producer
  obtain ⟨enqueue, cycle, _⟩ := producer
  rw [lap.pushes] at enqueue cycle
  have wider := @Reachable.mono _ _ (machine Spare) (machine fun _ _ => True)
    (fun _ isInitial => isInitial) (fun _ _ both => ⟨both.1, trivial⟩) rfl system lap.reached
  have permitted : allowed system (.push sample) :=
    ⟨lap.idle, by decide, by rw [lap.pushes, lap.takes]; decide⟩
  obtain ⟨_, isPushed, isTaken, index, isCycle⟩ := pushWhole_spec system sample
  have pushed : (pushWhole system sample).pushed.length = 510 := by
    rw [isPushed, length_append, lap.pushes]
    rfl
  have taken : (pushWhole system sample).taken.length = 255 := by
    rw [isTaken, lap.takes]
    rfl
  -- the push fills the last usable slot, so it writes the link
  have bit : hasCycle ((pushWhole system sample).ring.trbs xhciRingUsable) = false := by
    have atEnd : (writeControl (writeStatus (writeParameter system.ring sample) sample)
        sample).enqueue = xhciRingUsable := by
      show system.ring.enqueue + 1 = xhciRingUsable
      rw [enqueue]
      decide
    have isRing : (pushWhole system sample).ring = wrap (writeControl
        (writeStatus (writeParameter system.ring sample) sample) sample) := rfl
    rw [isRing, wrap, if_pos atEnd]
    simp only [atEnd, update_self, hasCycle_with]
    exact cycle.trans (by decide)
  have waits : fetch (pushWhole system sample) = pushWhole system sample := by
    rw [fetch, index, lap.index, isCycle, lap.cycle, if_pos]
    rw [bit]
    decide
  have stays : ∀ rounds, (fetch^[rounds]) (pushWhole system sample) = pushWhole system sample :=
    fun rounds => iterate_fixed waits rounds
  refine ⟨_, pushWhole_reachable sample wider permitted trivial fun _ => trivial, pushed, taken,
    stays, fun inOrder => ?_⟩
  have all := inOrder.2 1020 (by rw [pushed, taken]; decide)
  have lengths := congrArg length all
  rw [stays, length_map, length_map, pushed, taken] at lengths
  exact absurd lengths (by decide)

end WholeLaps

end Balrog.XhciRings
