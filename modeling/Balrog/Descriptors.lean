import Balrog.Runs
import Mathlib.Algebra.Group.Nat.Defs

/-!
# The descriptor table of a process

A process has 99 descriptors, numbered from 3, and a counter of eight bits that `sys_open`
advances before anything can fail. `sys_close`, `sys_fstat`, `sys_read` and `sys_write` take the
number from a register and use the slot without a check; `sys_write` keeps the low 32 bits of
the register only. A slot is never given out again after a close.

How an open ends is part of the call. A slot that was overwritten by an open that failed is
told apart from one that was handed out: only the latter belongs to a descriptor. The console
descriptors 0 to 2 of read and write do not use the table.
-/

namespace Balrog.Descriptors

open Runs Function

/-- The length of `fd_table`. -/
def tableLength : Nat := 99

/-- What has been done to a slot: nothing, an open that was refused, an open that was handed
out, a close. -/
inductive Slot where
  | unused
  | refused
  | opened
  | closed
deriving DecidableEq, Repr

/-- `fd_size` and `fd_table`, with what lies around the table. -/
structure Process where
  fdSize : Nat
  slots : Nat → Slot

/-- How an open ends: the path cannot be copied, the file is not found, it may not be read, or
it is open. -/
inductive OpenResult where
  | badPath
  | notFound
  | denied
  | found
deriving DecidableEq, Repr

/-- The system calls, with the register that holds the descriptor. -/
inductive Call where
  | sysOpen (result : OpenResult)
  | sysClose (rdi : Nat)
  | sysFstat (rdi : Nat)
  | sysRead (rdi : Nat)
  | sysWrite (rdi : Nat)
deriving DecidableEq, Repr

/-- `stack_frame->rdi - 3` as an index, in 64 bits. -/
def slotOf (rdi : Nat) : Nat := (rdi + (2 ^ 64 - 3)) % 2 ^ 64

/-- The slot of `sys_write`: the descriptor is an `unsigned`. -/
def writeSlot (rdi : Nat) : Option Nat :=
  let fdId := rdi % 2 ^ 32
  if 2 < fdId then some (fdId - 3) else none

/-- The slot of `sys_read`; 0 is the keyboard, 1 and 2 do nothing. -/
def readSlot (rdi : Nat) : Option Nat :=
  if rdi = 0 ∨ rdi = 1 ∨ rdi = 2 then none else some (slotOf rdi)

/-- What `sys_open` leaves in the slot. -/
def openedSlot (slot : Slot) : OpenResult → Slot
  | .badPath => slot
  | .notFound => .refused
  | .denied => .refused
  | .found => .opened

/-- `sys_open`: the counter is advanced first. The result is the descriptor. -/
def sysOpen (process : Process) (result : OpenResult) : Option Nat × Process :=
  let index := process.fdSize
  (if result = .found then some (index + 3) else none,
    { fdSize := (process.fdSize + 1) % 2 ^ 8
      slots := update process.slots index (openedSlot (process.slots index) result) })

/-- `sys_close` -/
def sysClose (process : Process) (rdi : Nat) : Process :=
  { process with slots := update process.slots (slotOf rdi) .closed }

/-- One call. Reading, writing and the status of a file leave the table alone. -/
def step (process : Process) : Call → Option Process
  | .sysOpen result => some (sysOpen process result).2
  | .sysClose rdi => some (sysClose process rdi)
  | .sysFstat _ | .sysRead _ | .sysWrite _ => some process

/-- The slot that a call names by its descriptor, if it takes one. -/
def usedSlot : Call → Option Nat
  | .sysOpen _ => none
  | .sysClose rdi | .sysFstat rdi => some (slotOf rdi)
  | .sysRead rdi => readSlot rdi
  | .sysWrite rdi => writeSlot rdi

/-- A descriptor that an open has returned and that has not been closed since. -/
def Usable (process : Process) (fd : Nat) : Prop :=
  3 ≤ fd ∧ fd < 3 + tableLength ∧ process.slots (fd - 3) = .opened

instance (process : Process) (fd : Nat) : Decidable (Usable process fd) :=
  inferInstanceAs (Decidable (_ ∧ _))

/-- A call is safe: the slot it uses lies in the table and belongs to a usable descriptor, an
open writes a slot of the table that does not, and an open that fails changes nothing about
which descriptors are usable. -/
def Safe (process : Process) (call : Call) : Prop :=
  (∀ index ∈ usedSlot call, index < tableLength ∧ process.slots index = .opened) ∧
  ∀ result, call = .sysOpen result →
    (process.fdSize < tableLength ∧ process.slots process.fdSize ≠ .opened) ∧
    ((sysOpen process result).1 = none →
      ∀ fd, Usable (sysOpen process result).2 fd ↔ Usable process fd)

/-- When a call is safe: an open finds a slot that has not been counted, and the other calls
name a usable descriptor or, where that is possible, the console. -/
def Good (process : Process) : Call → Prop
  | .sysOpen _ => process.fdSize < tableLength
  | .sysClose rdi | .sysFstat rdi => Usable process rdi
  | .sysRead rdi => rdi ≤ 2 ∨ Usable process rdi
  | .sysWrite rdi => rdi % 2 ^ 32 ≤ 2 ∨ Usable process (rdi % 2 ^ 32)

/-- A process that has opened nothing. -/
def newProcess : Process := { fdSize := 0, slots := fun _ => .unused }

/-- The runs of a process; `condition` restricts the calls. -/
def machine (condition : Process → Call → Prop) : Machine Process Call where
  initial process := process = newProcess
  allowed := condition
  step := step

/-- The slots from the counter on have not been used, and the counter is in the table or at
its end. -/
structure Invariant (process : Process) : Prop where
  counter : process.fdSize ≤ tableLength
  unused : ∀ index, process.fdSize ≤ index → process.slots index = .unused

variable {process : Process}

theorem slotOf_usable {fd : Nat} (usable : Usable process fd) :
    slotOf fd = fd - 3 := by
  obtain ⟨low, high, _⟩ := usable
  unfold slotOf tableLength at *
  omega

theorem Usable.slot {fd : Nat} (usable : Usable process fd) :
    fd - 3 < tableLength ∧ process.slots (fd - 3) = .opened := by
  obtain ⟨low, high, isOpened⟩ := usable
  exact ⟨by omega, isOpened⟩

/-- The slot that an open gets belongs to no descriptor. -/
theorem Invariant.fresh (invariant : Invariant process) :
    process.slots process.fdSize ≠ .opened := by
  rw [invariant.unused process.fdSize (Nat.le_refl _)]
  decide

theorem Invariant.failed_open (invariant : Invariant process) {result : OpenResult}
    (failed : (sysOpen process result).1 = none) (fd : Nat) :
    Usable (sysOpen process result).2 fd ↔ Usable process fd := by
  have notFound : result ≠ .found := by
    intro found
    simp [sysOpen, found] at failed
  have unused := invariant.unused process.fdSize (Nat.le_refl _)
  have refused : openedSlot .unused result ≠ .opened := by
    cases result <;> simp_all [openedSlot]
  have same : (sysOpen process result).2.slots (fd - 3) = .opened ↔
      process.slots (fd - 3) = .opened := by
    simp only [sysOpen, update_apply]
    split
    · next isSlot => simp [isSlot, unused, refused]
    · rfl
  unfold Usable
  rw [same]

theorem Invariant.safe (invariant : Invariant process) {call : Call} (good : Good process call) :
    Safe process call := by
  refine ⟨fun index used => ?_, ?_⟩
  · cases call with
    | sysOpen result => exact absurd used (by simp [usedSlot])
    | sysClose rdi | sysFstat rdi =>
      obtain rfl : slotOf rdi = index := by simpa [usedSlot] using used
      rw [slotOf_usable good]
      exact good.slot
    | sysRead rdi =>
      simp only [usedSlot, readSlot] at used
      split at used
      · exact absurd used (by simp)
      · next file =>
        obtain rfl : slotOf rdi = index := by simpa using used
        have usable := good.resolve_left (by omega)
        rw [slotOf_usable usable]
        exact usable.slot
    | sysWrite rdi =>
      simp only [usedSlot, writeSlot] at used
      split at used
      · next file =>
        obtain rfl : rdi % 2 ^ 32 - 3 = index := by simpa using used
        exact (good.resolve_left (by omega)).slot
      · exact absurd used (by simp)
  · rintro result rfl
    exact ⟨⟨good, invariant.fresh⟩, invariant.failed_open⟩

theorem invariant_inductive : Inductive (machine Good) Invariant where
  starts := by
    rintro _ rfl
    exact ⟨Nat.zero_le _, fun _ _ => rfl⟩
  preserved := by
    rintro process call invariant good
    cases call with
    | sysOpen result =>
      have room : process.fdSize < tableLength := good
      have count : (process.fdSize + 1) % 2 ^ 8 = process.fdSize + 1 := by
        unfold tableLength at room
        omega
      refine ⟨_, rfl, ?_, fun index behind => ?_⟩
      · simp only [sysOpen, count]
        omega
      · simp only [sysOpen, count] at behind ⊢
        rw [update_of_ne (by omega)]
        exact invariant.unused index (by omega)
    | sysClose rdi =>
      have usable : Usable process rdi := good
      refine ⟨_, rfl, invariant.counter, fun index behind => ?_⟩
      have apart : index ≠ slotOf rdi := by
        intro same
        have unused := invariant.unused index behind
        rw [same, slotOf_usable usable, usable.slot.2] at unused
        exact absurd unused (by decide)
      simp only [sysClose, update_of_ne apart]
      exact invariant.unused index behind
    | sysFstat rdi | sysRead rdi | sysWrite rdi => exact ⟨process, rfl, invariant⟩

/-- In every run of good calls, every good call is safe. -/
theorem descriptors_safe {process : Process} (reached : Reachable (machine Good) process)
    {call : Call} (good : Good process call) : Safe process call :=
  (invariant_inductive.holds reached).safe good

/-- A process after its first successful `open`. -/
def oneDescriptor : Process := (sysOpen newProcess .found).2

/-- A file is opened, and its descriptor is read. -/
theorem descriptors_safe_read : Good oneDescriptor (.sysRead 3) ∧
    Safe oneDescriptor (.sysRead 3) := by
  have reached : Reachable (machine Good) oneDescriptor :=
    (Reachable.initial rfl).call (.sysOpen .found)
      (show newProcess.fdSize < tableLength by decide) rfl
  have good : Good oneDescriptor (.sysRead 3) := Or.inr (by decide)
  exact ⟨good, descriptors_safe reached good⟩

/-- The process behind a number of opens whose path cannot be read. They take no slot, but are
counted. -/
def afterFailures : Nat → Process → Process
  | 0, process => process
  | count + 1, process => afterFailures count (sysOpen process .badPath).2

theorem afterFailures_reachable (count : Nat) (process : Process)
    (reached : Reachable (machine fun _ _ => True) process) :
    Reachable (machine fun _ _ => True) (afterFailures count process) := by
  induction count generalizing process with
  | zero => exact reached
  | succ count ih => exact ih _ (reached.call (.sysOpen .badPath) trivial rfl)

/-- Without the condition a read uses a slot outside the table, and after 256 opens one that
fails destroys a descriptor in use. -/
theorem descriptors_unsafe :
    (∃ process, Reachable (machine fun _ _ => True) process ∧ ¬ Safe process (.sysRead 1000)) ∧
    (∃ process, Reachable (machine fun _ _ => True) process ∧
      Usable process 3 ∧ ¬ Safe process (.sysOpen .notFound) ∧
      ¬ Usable (sysOpen process .notFound).2 3) := by
  have started : Reachable (machine fun _ _ => True) newProcess := .initial rfl
  have opened : Reachable (machine fun _ _ => True) oneDescriptor :=
    started.call (.sysOpen .found) trivial rfl
  have wrapped : Reachable (machine fun _ _ => True) (afterFailures 255 oneDescriptor) :=
    afterFailures_reachable 255 oneDescriptor opened
  refine ⟨⟨newProcess, started, fun safe => ?_⟩,
    ⟨afterFailures 255 oneDescriptor, wrapped, by decide +kernel, fun safe => ?_,
      by decide +kernel⟩⟩
  · have inside := (safe.1 997 (by decide)).1
    exact absurd inside (by decide)
  · have apart := (safe.2 .notFound rfl).1.2
    exact absurd apart (by decide +kernel)

end Balrog.Descriptors
