import Balrog.XhciRings

/-!
# Completions on the event ring of the xHCI driver

`__xhci_command`, `__xhci_control_transfer` and `__xhci_bulk` push their TRBs, ring the
doorbell and wait for the next event of a type: one type answers commands, another one all
transfers. `__xhci_wait_event` reads the events from one ring and does not look at the TRB an
event points to. A request that is answered after its wait has timed out leaves an event that
the next wait takes for its own.

Requests are numbered, which the source does not do, and every event on the ring is kept with
the number of the request it answers. What the controller does follows the rules of the xHCI
specification: it puts events in the slots of the event ring in turn, with the cycle bit of its
lap, does not overwrite an event that was not read, and answers a request at most once. Between
two looks of the driver at the ring anything may happen, and a wait ends without an event when
the driver finds the ring empty after its deadline. Requests follow one another. The copies
to and from the bounce buffer are left out, and so are slots and endpoints without a ring.
-/

namespace Balrog.XhciEvents

open Runs Function CycleRing XhciRings List

/-- `XHCI_TRB_TRANSFER_EVENT` -/
def xhciTrbTransferEvent : Nat := 32

/-- `XHCI_TRB_COMMAND_EVENT` -/
def xhciTrbCommandEvent : Nat := 33

/-- `XHCI_TRB_COMP_CODE` -/
def xhciTrbCompCode (status : BitVec 32) : Nat := ((status >>> 24) &&& 0xFF).toNat

/-- A request with what its function is called with; transfers name their slot and endpoint. -/
inductive Request where
  | command (trb : XhciTrb)
  | control (slot : Nat) (setup : BitVec 64) (directionIn : Bool) (buffer : BitVec 64)
      (len : BitVec 16)
  | bulk (slot dci : Nat) (buffer : BitVec 64) (len : BitVec 32)

/-- The bits of a control word besides its type: `XHCI_TRB_ISP`, `XHCI_TRB_IOC`, `XHCI_TRB_IDT`
and `XHCI_TRB_DIR_IN`. -/
def xhciTrbIsp : BitVec 32 := 1 <<< 2

@[inherit_doc xhciTrbIsp] def xhciTrbIoc : BitVec 32 := 1 <<< 5

@[inherit_doc xhciTrbIsp] def xhciTrbIdt : BitVec 32 := 1 <<< 6

@[inherit_doc xhciTrbIsp] def xhciTrbDirIn : BitVec 32 := 1 <<< 16

/-- The ring a request goes to. The command ring has the place of slot 0. -/
def Request.ring : Request → Nat × Nat
  | .command _ => (0, 0)
  | .control slot _ _ _ _ => (slot, 1)
  | .bulk slot dci _ _ => (slot, dci)

/-- The entries that a request puts on its ring. -/
def Request.trbs : Request → List XhciTrb
  | .command trb => [trb]
  | .control _ setup directionIn buffer len =>
    let trt : BitVec 32 := if len = 0 then 0 else if directionIn then 3 <<< 16 else 2 <<< 16
    let data : List XhciTrb :=
      if len = 0 then []
      else [⟨buffer, len.setWidth 32,
        xhciTrbType 3 ||| if directionIn then xhciTrbDirIn else 0⟩]
    [⟨setup, 8, xhciTrbType 2 ||| xhciTrbIdt ||| trt⟩] ++ data ++
      [⟨0, 0, xhciTrbType 4 ||| xhciTrbIoc |||
        if len = 0 ∨ directionIn = false then xhciTrbDirIn else 0⟩]
  | .bulk _ _ buffer len => [⟨buffer, len, xhciTrbType 1 ||| xhciTrbIoc ||| xhciTrbIsp⟩]

/-- The type of the event that answers a request. -/
def Request.eventType : Request → Nat
  | .command _ => xhciTrbCommandEvent
  | .control _ _ _ _ _ | .bulk _ _ _ _ => xhciTrbTransferEvent

/-- What a request returns for a completion code. -/
def Request.result (request : Request) (code : Nat) : Int :=
  match request with
  | .command _ | .control _ _ _ _ _ => code
  | .bulk _ _ _ _ => if code ≠ 1 ∧ code ≠ 13 then -1 else 0

/-- An event, and the number of the request that it answers. -/
structure Event where
  trb : XhciTrb
  owner : Option Nat

/-- What a request returned, and the number of the event it took. -/
structure Answer where
  call : Nat
  request : Request
  position : Nat
  value : Int

/-- The rings of requests and the event ring, all events so far and how many of them were read,
the number of requests, those that the controller has not answered, the one that waits, and what
was returned. -/
structure System where
  rings : Nat × Nat → XhciRing
  event : XhciRing
  posted : List Event
  consumed : Nat
  calls : Nat
  unanswered : List (Nat × Nat)
  waiting : Option (Nat × Request)
  answers : List Answer

/-- The driver puts the entries of a request on its ring and waits. -/
def begin (system : System) (request : Request) : System :=
  { system with
    rings := update system.rings request.ring
      (request.trbs.foldl xhciRingPush (system.rings request.ring))
    calls := system.calls + 1
    unanswered := (system.calls, request.eventType) :: system.unanswered
    waiting := some (system.calls, request) }

/-- `xhci->event.dequeue++` and the wrap by size. -/
def nextEvent (ring : XhciRing) : XhciRing :=
  if ring.dequeue + 1 = xhciRingTrbs then { ring with dequeue := 0, cycle := !ring.cycle }
  else { ring with dequeue := ring.dequeue + 1 }

/-- One round of the loop of `__xhci_wait_event`. -/
def poll (system : System) : System :=
  match system.waiting with
  | none => system
  | some (call, request) =>
    let trb := system.event.trbs system.event.dequeue
    if hasCycle trb = system.event.cycle then
      let read := { system with
        event := nextEvent system.event
        consumed := system.consumed + 1 }
      if xhciTrbGetType trb.control ≠ request.eventType then read
      else
        { read with
          waiting := none
          answers := ⟨call, request, system.consumed,
            request.result (xhciTrbCompCode trb.status)⟩ :: system.answers }
    else system

/-- The controller writes the next event, with the cycle bit of its lap. -/
def post (system : System) (event : Event) : System :=
  { system with
    event := { system.event with
      trbs := update system.event.trbs (system.posted.length % xhciRingTrbs)
        { event.trb with
          control := withCycle event.trb.control (cycleAt xhciRingTrbs system.posted.length) } }
    posted := system.posted ++ [event] }

/-- What happens in a run: a request, a look at the event ring, the end of a wait, the answer to
a request, and an event that answers none. -/
inductive Call where
  | begin (request : Request)
  | poll
  | timeout
  | complete (call type : Nat) (trb : XhciTrb)
  | notify (trb : XhciTrb)

/-- One event of the driver or the controller. -/
def step (system : System) : Call → Option System
  | .begin request => some (begin system request)
  | .poll => some (poll system)
  | .timeout => some { system with waiting := none }
  | .complete call type trb =>
    some (post { system with unanswered := system.unanswered.erase (call, type) } ⟨trb, some call⟩)
  | .notify trb => some (post system ⟨trb, none⟩)

/-- One request at a time; a wait ends without an event only on an empty ring; and the rules of
the controller. `condition` restricts the requests. -/
def allowed (condition : System → Request → Prop) (system : System) : Call → Prop
  | .begin request => system.waiting = none ∧ condition system request
  | .poll => True
  | .timeout => hasCycle (system.event.trbs system.event.dequeue) ≠ system.event.cycle
  | .complete call type trb => (call, type) ∈ system.unanswered ∧
    xhciTrbGetType trb.control = type ∧ system.posted.length < system.consumed + xhciRingTrbs
  | .notify trb => xhciTrbGetType trb.control ≠ xhciTrbTransferEvent ∧
    xhciTrbGetType trb.control ≠ xhciTrbCommandEvent ∧
    system.posted.length < system.consumed + xhciRingTrbs

/-- The driver and the controller from the allocation of the rings on. -/
def machine (condition : System → Request → Prop) : Machine System Call where
  initial system := ∃ rings physical, system =
    { rings := rings, event := xhciRingAlloc physical false, posted := [], consumed := 0,
      calls := 0, unanswered := [], waiting := none, answers := [] }
  allowed := allowed condition
  step := step

/-- What an answer says is the completion code of its own request. -/
def Answered (posted : List Event) (answer : Answer) : Prop :=
  ∃ event, posted[answer.position]? = some event ∧ event.owner = some answer.call ∧
    answer.value = answer.request.result (xhciTrbCompCode event.trb.status)

/-- No earlier request for an event of the same type is without an answer, and no such answer is
still unread. -/
def Fresh (system : System) (request : Request) : Prop :=
  (∀ pending ∈ system.unanswered, pending.2 ≠ request.eventType) ∧
  ∀ event ∈ system.posted.drop system.consumed,
    xhciTrbGetType event.trb.control ≠ request.eventType

/-- The event ring holds the unread events. While a request waits, every answer of its type that
is unread or to come is its own. -/
structure Invariant (system : System) : Prop where
  window : Window xhciRingTrbs (view system.event.trbs)
    (system.posted.map fun event => clear event.trb) system.consumed
  reader : system.event.dequeue = system.consumed % xhciRingTrbs ∧
    system.event.cycle = cycleAt xhciRingTrbs system.consumed
  pending : ∀ call request, system.waiting = some (call, request) →
    ∀ other ∈ system.unanswered, other.2 = request.eventType → other.1 = call
  unread : ∀ call request, system.waiting = some (call, request) →
    ∀ event ∈ system.posted.drop system.consumed,
      xhciTrbGetType event.trb.control = request.eventType → event.owner = some call
  answered : ∀ answer ∈ system.answers, Answered system.posted answer

theorem trbs_positive : 0 < xhciRingTrbs := by decide

section Steps

variable {system : System}

theorem begin_invariant (invariant : Invariant system) {request : Request}
    (fresh : Fresh system request) : Invariant (begin system request) := by
  refine ⟨invariant.window, invariant.reader, ?_, ?_, invariant.answered⟩
  · intro call other waits pending member same
    obtain ⟨rfl, rfl⟩ := Prod.mk.inj (Option.some.inj waits)
    rcases mem_cons.mp member with rfl | old
    · rfl
    · exact absurd same (fresh.1 pending old)
  · intro call other waits event member same
    obtain ⟨rfl, rfl⟩ := Prod.mk.inj (Option.some.inj waits)
    exact absurd same (fresh.2 event member)

section Windows

variable {trbs : Nat → XhciTrb} {items : List XhciTrb} {consumed : Nat}
  (window : Window xhciRingTrbs (view trbs) items consumed)
include window

/-- What the controller writes is the next item of the ring. -/
theorem window_posted (room : items.length < consumed + xhciRingTrbs) (trb : XhciTrb) :
    Window xhciRingTrbs
      (view (update trbs (items.length % xhciRingTrbs)
        { trb with control := withCycle trb.control (cycleAt xhciRingTrbs items.length) }))
      (items ++ [clear trb]) consumed := by
  have whole (cycle : Bool) :
      clear { trb with control := withCycle trb.control cycle } = clear trb := by
    rw [clear, withCycle_rest]
    rfl
  rw [view_update, whole, hasCycle_with]
  exact window.write room _

/-- The entry that the driver finds with the bit of its lap is the first unread item. -/
theorem window_found {dequeue : Nat} {cycle : Bool}
    (reader : dequeue = consumed % xhciRingTrbs ∧ cycle = cycleAt xhciRingTrbs consumed)
    (ready : hasCycle (trbs dequeue) = cycle) : items[consumed]? = some (clear (trbs dequeue)) := by
  obtain ⟨rfl, rfl⟩ := reader
  rcases Nat.lt_or_eq_of_le window.behind with more | all
  · have slot := window.ready (getElem?_eq_getElem more)
    exact (getElem?_eq_getElem more).trans (congrArg some (congrArg Prod.fst slot).symm)
  · have other := window.waiting trbs_positive all
    exact absurd (ready.symm.trans other) (Bool.eq_not_self _).mp

end Windows

/-- An event is put on the ring; if a request waits for its type, it is the answer to it. -/
theorem post_invariant (invariant : Invariant system) {event : Event}
    (room : system.posted.length < system.consumed + xhciRingTrbs)
    (own : ∀ call request, system.waiting = some (call, request) →
      xhciTrbGetType event.trb.control = request.eventType → event.owner = some call) :
    Invariant (post system event) := by
  have behind := invariant.window.behind
  rw [length_map] at behind
  refine ⟨?_, invariant.reader, invariant.pending, ?_, ?_⟩
  · have length : (system.posted.map fun event => clear event.trb).length =
        system.posted.length := length_map _
    rw [post, map_append, map_singleton, ← length]
    refine window_posted invariant.window ?_ event.trb
    rw [length]
    exact room
  · intro call request waits other member same
    rw [post, drop_append_of_le_length behind] at member
    rcases mem_append.mp member with old | new
    · exact invariant.unread call request waits other old same
    · rw [mem_singleton.mp new] at same ⊢
      exact own call request waits same
  · intro answer member
    obtain ⟨taken, found, rest⟩ := invariant.answered answer member
    refine ⟨taken, ?_, rest⟩
    rw [post, List.getElem?_append_left (List.getElem?_eq_some_iff.mp found).1]
    exact found

/-- The reader moves with the number of events that were read. -/
theorem nextEvent_reader {ring : XhciRing} {consumed : Nat}
    (dequeue : ring.dequeue = consumed % xhciRingTrbs)
    (cycle : ring.cycle = cycleAt xhciRingTrbs consumed) :
    (nextEvent ring).dequeue = (consumed + 1) % xhciRingTrbs ∧
      (nextEvent ring).cycle = cycleAt xhciRingTrbs (consumed + 1) := by
  rw [nextEvent, dequeue]
  split
  · next last =>
    obtain ⟨slot, lap⟩ := succ_wraps last
    refine ⟨slot.symm, ?_⟩
    simp only [cycle]
    rw [cycleAt, cycleAt, lap, lapCycle_succ]
  · next inner =>
    obtain ⟨slot, lap⟩ := succ_stays trbs_positive inner
    refine ⟨slot.symm, ?_⟩
    simp only [cycle]
    rw [cycleAt, cycleAt, lap]

theorem nextEvent_trbs (ring : XhciRing) : (nextEvent ring).trbs = ring.trbs := by
  rw [nextEvent]
  split <;> rfl

/-- The event the driver finds is the first unread one. -/
theorem event_found (invariant : Invariant system)
    (ready : hasCycle (system.event.trbs system.event.dequeue) = system.event.cycle) :
    ∃ event, system.posted[system.consumed]? = some event ∧
      clear (system.event.trbs system.event.dequeue) = clear event.trb := by
  have next := window_found invariant.window invariant.reader ready
  rw [getElem?_map, Option.map_eq_some_iff] at next
  obtain ⟨event, found, item⟩ := next
  exact ⟨event, found, item.symm⟩

/-- Reading an event, whatever becomes of the wait. -/
theorem read_invariant (invariant : Invariant system) {waiting : Option (Nat × Request)}
    (still : waiting = system.waiting ∨ waiting = none) {answers : List Answer}
    (more : system.consumed < system.posted.length)
    (answered : ∀ answer ∈ answers, Answered system.posted answer) :
    Invariant { system with
      event := nextEvent system.event
      consumed := system.consumed + 1
      waiting := waiting
      answers := answers } := by
  have same {call : Nat} {request : Request} (waits : waiting = some (call, request)) :
      system.waiting = some (call, request) := by
    rcases still with rfl | rfl
    · exact waits
    · cases waits
  refine ⟨?_, nextEvent_reader invariant.reader.1 invariant.reader.2, ?_, ?_, answered⟩
  · simp only [nextEvent_trbs]
    refine invariant.window.take trbs_positive ?_
    rw [length_map]
    exact more
  · intro call request waits
    exact invariant.pending call request (same waits)
  · intro call request waits event member
    refine invariant.unread call request (same waits) event ?_
    rw [drop_eq_getElem_cons more]
    exact mem_cons_of_mem _ member

theorem poll_invariant (invariant : Invariant system) : Invariant (poll system) := by
  unfold poll
  cases waits : system.waiting with
  | none => exact invariant
  | some waiting =>
    obtain ⟨call, request⟩ := waiting
    simp only
    split
    · next ready =>
      obtain ⟨event, found, item⟩ := event_found invariant ready
      have more : system.consumed < system.posted.length := (List.getElem?_eq_some_iff.mp found).1
      split
      · exact read_invariant invariant (.inl waits.symm) more invariant.answered
      · next matching =>
        refine read_invariant invariant (.inr rfl) more fun answer member => ?_
        rcases mem_cons.mp member with rfl | old
        · have type : xhciTrbGetType event.trb.control = request.eventType := by
            rw [← same_type item]
            exact not_not.mp matching
          have status : (system.event.trbs system.event.dequeue).status = event.trb.status :=
            (XhciTrb.mk.inj item).2.1
          refine ⟨event, found, invariant.unread call request waits event ?_ type, ?_⟩
          · rw [drop_eq_getElem_cons more, mem_cons]
            exact .inl (List.getElem?_eq_some_iff.mp found).2.symm
          · rw [status]
        · exact invariant.answered answer old
    · exact invariant

end Steps

/-- Every event keeps the answers with their requests, if requests are made afresh. -/
theorem machine_invariant : Inductive (machine Fresh) Invariant where
  starts := by
    rintro _ ⟨rings, physical, rfl⟩
    have first : true = cycleAt xhciRingTrbs 0 := by decide
    have clean (index : Nat) : (view (xhciRingAlloc physical false).trbs index).2 = false := by
      simp only [view, xhciRingAlloc, Bool.false_eq_true, if_false]
      decide
    refine ⟨Window.start fun index _ => clean index, ⟨rfl, first⟩, ?_, ?_, ?_⟩
    · intro call request waits
      cases waits
    · intro call request waits
      cases waits
    · intro answer member
      cases member
  preserved := by
    intro system call invariant permitted
    cases call with
    | begin request => exact ⟨_, rfl, begin_invariant invariant permitted.2⟩
    | poll => exact ⟨_, rfl, poll_invariant invariant⟩
    | timeout =>
      refine ⟨_, rfl, invariant.window, invariant.reader, ?_, ?_, invariant.answered⟩
      · intro call request waits
        cases waits
      · intro call request waits
        cases waits
    | complete call type trb =>
      obtain ⟨member, isType, room⟩ := permitted
      have kept : Invariant { system with
          unanswered := system.unanswered.erase (call, type) } := by
        refine ⟨invariant.window, invariant.reader, ?_, invariant.unread, invariant.answered⟩
        intro waiter request waits other inside
        exact invariant.pending waiter request waits other (mem_of_mem_erase inside)
      refine ⟨_, rfl, post_invariant kept room fun waiter request waits same => ?_⟩
      exact congrArg some (invariant.pending waiter request waits (call, type) member
        (isType.symm.trans same))
    | notify trb =>
      obtain ⟨notTransfer, notCommand, room⟩ := permitted
      refine ⟨_, rfl, post_invariant invariant room fun waiter request waits same => ?_⟩
      cases request with
      | command _ => exact absurd same notCommand
      | control _ _ _ _ _ => exact absurd same notTransfer
      | bulk _ _ _ _ => exact absurd same notTransfer

/-- In every run whose requests are made afresh, each of them returns the completion code of its
own TRBs. -/
theorem completions_match (system : System) (reached : Reachable (machine Fresh) system) :
    ∀ answer ∈ system.answers, Answered system.posted answer :=
  (machine_invariant.holds reached).answered

/-- No request has been made yet. -/
def quiet : System :=
  { rings := fun _ => xhciRingAlloc 0x1000 true, event := xhciRingAlloc 0x2000 false, posted := [],
    consumed := 0, calls := 0, unanswered := [], waiting := none, answers := [] }

/-- A no-op command, and the event that reports success or a stall. -/
def noop : Request := .command ⟨0, 0, xhciTrbType 23⟩

@[inherit_doc noop] def succeeded : XhciTrb := ⟨0, 1 <<< 24, xhciTrbType xhciTrbCommandEvent⟩

@[inherit_doc noop] def stalled : XhciTrb := ⟨0, 6 <<< 24, xhciTrbType xhciTrbCommandEvent⟩

/-- The state after some events. -/
def after (system : System) : List Call → System
  | [] => system
  | call :: rest => after ((step system call).getD system) rest

/-- A command that is answered in time. -/
theorem completions_match_noop :
    (after quiet [.begin noop, .complete 0 33 succeeded, .poll]).answers.length = 1 ∧
    ∀ answer ∈ (after quiet [.begin noop, .complete 0 33 succeeded, .poll]).answers,
      Answered (after quiet [.begin noop, .complete 0 33 succeeded, .poll]).posted answer := by
  have starts : Reachable (machine Fresh) quiet := .initial ⟨_, _, rfl⟩
  have fresh : Fresh quiet noop :=
    ⟨fun _ member => absurd member not_mem_nil, fun _ member => absurd member not_mem_nil⟩
  have first := starts.call (.begin noop) ⟨rfl, fresh⟩ rfl
  have second := first.call (.complete 0 33 succeeded) ⟨mem_cons_self, by decide, by decide⟩ rfl
  have third := second.call .poll trivial rfl
  exact ⟨by decide, completions_match _ third⟩

/-- A command times out, its answer comes late, and the next command takes it: request 1 returns
the code of request 0. -/
theorem late_completion : ∃ system,
    Reachable (machine fun _ _ => True) system ∧
    ∃ answer ∈ system.answers, ¬ Answered system.posted answer := by
  have starts : Reachable (machine fun _ _ => True) quiet := .initial ⟨_, _, rfl⟩
  have waits : (machine fun _ _ => True).allowed (begin quiet noop) .timeout := by
    simp only [machine, allowed]
    decide
  have first := starts.call (.begin noop) ⟨rfl, trivial⟩ rfl
  have second := first.call .timeout waits rfl
  have third := second.call (.complete 0 33 stalled) ⟨mem_cons_self, by decide, by decide⟩ rfl
  have fourth := third.call (.begin noop) ⟨rfl, trivial⟩ rfl
  have fifth := fourth.call .poll trivial rfl
  refine ⟨_, fifth, ⟨1, noop, 0, 6⟩, ?_, ?_⟩
  · exact mem_cons_self
  · rintro ⟨event, found, owner, _⟩
    cases found
    cases owner

end Balrog.XhciEvents
