import Mathlib.Data.List.GetD
import Mathlib.Logic.Function.Basic
import Mathlib.Tactic.Common

/-!
# The queue of key events

The handler of the keyboard interrupt puts the events of keys into a ring, and `keyboard_read` takes
them out. One entry of the ring stays unused, so that a full queue is not taken for an empty one.
System calls are not interrupted, so that a run is any sequence of the two calls. It is compared with
a list of at most 63 events.

The handler only decides which bytes are scan codes: an interrupt is a number of pushed keys. The
counter of dropped events, which is for a message only, is left out.
-/

namespace Balrog.KeyboardQueue

open Function List

/-- `KEYBOARD_QUEUE_SIZE` -/
def keyboardQueueSize : Nat := 64

/-- `EV_KEY` -/
def evKey : Nat := 1

/-- `input_event` -/
structure InputEvent where
  type : Nat
  code : Nat
  value : Nat
deriving DecidableEq, Repr

/-- `key_eq`, `key_eq_head` and `key_eq_tail` -/
structure Keyboard where
  keyEq : Nat → InputEvent
  keyEqHead : Nat
  keyEqTail : Nat

/-- The event of a scan code: the key, and whether it is pressed. -/
def eventOf (key : UInt8) : InputEvent :=
  ⟨evKey, key.toNat % 128, if key.toNat < 128 then 1 else 0⟩

/-- `__keyboard_push_event` -/
def pushEvent (keyboard : Keyboard) (key : UInt8) : Keyboard :=
  let next := (keyboard.keyEqHead + 1) % keyboardQueueSize
  if next = keyboard.keyEqTail then keyboard
  else { keyboard with
    keyEq := update keyboard.keyEq keyboard.keyEqHead (eventOf key)
    keyEqHead := next }

/-- `keyboard_read` -/
def keyboardRead (keyboard : Keyboard) : Option InputEvent × Keyboard :=
  if keyboard.keyEqHead = keyboard.keyEqTail then (none, keyboard)
  else (some (keyboard.keyEq keyboard.keyEqTail),
    { keyboard with keyEqTail := (keyboard.keyEqTail + 1) % keyboardQueueSize })

/-- A key is pressed, or a process reads. -/
inductive Call where
  | push (key : UInt8)
  | read

/-- One event of the keyboard, with what a read returns. -/
def step (keyboard : Keyboard) : Call → Option InputEvent × Keyboard
  | .push key => (none, pushEvent keyboard key)
  | .read => keyboardRead keyboard

/-- A queue of events, which drops those that come when it holds one less than its capacity. -/
def queueStep (queue : List InputEvent) : Call → Option InputEvent × List InputEvent
  | .push key =>
    (none, if queue.length = keyboardQueueSize - 1 then queue else queue ++ [eventOf key])
  | .read => (queue.head?, queue.tail)

/-- What the calls of a run return. -/
def outputs {State : Type} (step : State → Call → Option InputEvent × State) :
    State → List Call → List (Option InputEvent)
  | _, [] => []
  | state, call :: calls => (step state call).1 :: outputs step (step state call).2 calls

/-- The keyboard before the first call. -/
def start : Keyboard := ⟨fun _ => ⟨0, 0, 0⟩, 0, 0⟩

/-- The events of a queue lie in the ring from the tail on. -/
structure Holds (keyboard : Keyboard) (queue : List InputEvent) : Prop where
  short : queue.length < keyboardQueueSize
  inside : keyboard.keyEqTail < keyboardQueueSize
  head : keyboard.keyEqHead = (keyboard.keyEqTail + queue.length) % keyboardQueueSize
  events : ∀ index < queue.length, queue[index]? =
    some (keyboard.keyEq ((keyboard.keyEqTail + index) % keyboardQueueSize))

variable {keyboard : Keyboard} {queue : List InputEvent}

theorem pushEvent_holds (holds : Holds keyboard queue) (key : UInt8) :
    Holds (pushEvent keyboard key) (queueStep queue (.push key)).2 := by
  obtain ⟨short, inside, head, events⟩ := holds
  have isFull : (keyboard.keyEqHead + 1) % keyboardQueueSize = keyboard.keyEqTail ↔
      queue.length = keyboardQueueSize - 1 := by
    simp only [keyboardQueueSize] at *
    omega
  simp only [pushEvent, queueStep, isFull]
  split
  · exact ⟨short, inside, head, events⟩
  · next room =>
    refine ⟨?_, inside, ?_, fun index below => ?_⟩
    · rw [length_append, length_singleton]
      omega
    · simp only [length_append, length_singleton, head, keyboardQueueSize]
      omega
    · dsimp only
      rcases Nat.lt_succ_iff_lt_or_eq.mp (length_append ▸ below) with old | rfl
      · have other : (keyboard.keyEqTail + index) % keyboardQueueSize ≠ keyboard.keyEqHead := by
          simp only [keyboardQueueSize] at *
          omega
        rw [getElem?_append_left old, events index old, update_of_ne other]
      · rw [getElem?_concat_length, ← head, update_self]

theorem keyboardRead_holds (holds : Holds keyboard queue) :
    (keyboardRead keyboard).1 = queue.head? ∧ Holds (keyboardRead keyboard).2 queue.tail := by
  obtain ⟨short, inside, head, events⟩ := holds
  have isEmpty : keyboard.keyEqHead = keyboard.keyEqTail ↔ queue.length = 0 := by
    simp only [keyboardQueueSize] at *
    omega
  simp only [keyboardRead, isEmpty]
  cases queue with
  | nil => exact ⟨rfl, short, inside, head, events⟩
  | cons event rest =>
    have first := events 0 (Nat.succ_pos _)
    rw [Nat.add_zero, Nat.mod_eq_of_lt inside] at first
    rw [length_cons] at short head
    simp only [length_cons, Nat.succ_ne_zero, if_false, tail_cons]
    refine ⟨first.symm, Nat.lt_of_succ_lt short, Nat.mod_lt _ (by decide), ?_,
      fun index below => ?_⟩
    · simp only [head, keyboardQueueSize]
      omega
    · have place : ((keyboard.keyEqTail + 1) % keyboardQueueSize + index) % keyboardQueueSize =
          (keyboard.keyEqTail + (index + 1)) % keyboardQueueSize := by
        simp only [keyboardQueueSize]
        omega
      rw [place, ← events (index + 1) (Nat.succ_lt_succ below), getElem?_cons_succ]

end Balrog.KeyboardQueue
