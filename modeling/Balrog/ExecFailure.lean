import Balrog.ReadyList

/-!
# An exec that cannot complete

`exec_process` can find out at three places that it cannot complete. That the file is missing
is only logged: the function goes on with a file record that was never filled in, and reports
success. A user record is needed when the caller has no working directory; if it is missing the
function returns before anything but the new record has been touched. A page for the arguments
is asked for last, when the new process has taken over the pid and the waiting pids of the
caller and its place in the ready list.

What the new process would execute, and the descriptor and the memory that the early return
leaves behind, are not part of this model.
-/

namespace Balrog.ExecFailure

open Processes ReadyList Function

/-- What the call finds: the file, a working directory of the caller, its user record, a page
for the arguments. -/
structure Found where
  file : Bool
  cwd : Bool
  user : Bool
  page : Bool
deriving DecidableEq, Repr

/-- Where `exec_process` ends. A missing file makes no difference. -/
def outcome (found : Found) : ExecResult :=
  if found.cwd = false ∧ found.user = false then .noUser
  else if found.page = false then .noArguments
  else .done

/-- The value that `exec_process` returns. -/
def returned : ExecResult → Int
  | .noUser => -1
  | .noArguments => -1
  | .done => 0

/-- `exec_process` with its result. -/
def exec (kernel : Kernel) (caller fresh : Nat) (found : Found) (killFlag : Nat) : Int × Kernel :=
  (returned (outcome found), execProcess kernel caller fresh (outcome found) killFlag)

/-- Something that the exec needs is missing. -/
def CannotComplete (found : Found) : Prop :=
  found.file = false ∨ (found.cwd = false ∧ found.user = false) ∨ found.page = false

/-- An error is returned, the caller keeps its state, its pid and its waiting pids, and the
process tree and the ready list are what they were. -/
structure Refused (kernel : Kernel) (caller : Nat) (result : Int × Kernel) : Prop where
  error : result.1 = -1
  state : result.2.state caller = kernel.state caller
  pid : result.2.pid caller = kernel.pid caller
  waitSize : result.2.waitSize caller = kernel.waitSize caller
  waitList : result.2.waitList caller = kernel.waitList caller
  tree : result.2.tree = kernel.tree
  listed : ∀ ring, Listed kernel ring → (∀ proc ∈ ring, kernel.live proc = true) →
    Listed result.2 ring

/-- Filling in a new record leaves the other records alone. -/
theorem newProcess_other (kernel : Kernel) {fresh proc : Nat} (other : proc ≠ fresh) :
    (newProcess kernel fresh).state proc = kernel.state proc ∧
      (newProcess kernel fresh).pid proc = kernel.pid proc ∧
      (newProcess kernel fresh).waitSize proc = kernel.waitSize proc ∧
      (newProcess kernel fresh).waitList proc = kernel.waitList proc ∧
      (newProcess kernel fresh).next proc = kernel.next proc ∧
      (newProcess kernel fresh).prev proc = kernel.prev proc := by
  simp only [newProcess, update_of_ne other, and_self]

/-- Filling in a record that is not live leaves the ready list alone. -/
theorem newProcess_listed {kernel : Kernel} {fresh : Nat} {ring : List Nat}
    (listed : Listed kernel ring) (absent : fresh ∉ ring) :
    Listed (newProcess kernel fresh) ring := by
  have other : ∀ proc ∈ ring, proc ≠ fresh := fun proc inside same => absent (same ▸ inside)
  exact { listed with
    closed := Ring.closed_congr listed.closed
      (fun proc inside => (newProcess_other kernel (other proc inside)).2.2.2.2.1)
      (fun proc inside => (newProcess_other kernel (other proc inside)).2.2.2.2.2) }

/-- The exec completes, or finds out before it hands anything over: either the caller has neither a
working directory nor a user record, or the file and the page for the arguments are there. -/
def Early (found : Found) : Prop :=
  (found.cwd = false ∧ found.user = false) ∨ (found.file = true ∧ found.page = true)

/-- Without a user record the caller and the lists of processes are left as they were. -/
theorem exec_noUser {kernel : Kernel} {caller fresh : Nat} (lives : kernel.live caller = true)
    (free : Free kernel fresh) {found : Found} (killFlag : Nat)
    (noUser : found.cwd = false ∧ found.user = false) :
    Refused kernel caller (exec kernel caller fresh found killFlag) := by
  have isOutcome : outcome found = .noUser := if_pos noUser
  have apart : caller ≠ fresh := ne_of_live lives free.2
  obtain ⟨state, pid, waitSize, waitList, _⟩ := newProcess_other kernel apart
  rw [exec, isOutcome]
  refine ⟨rfl, state, pid, waitSize, waitList, rfl, fun ring listed alive => ?_⟩
  refine newProcess_listed listed fun inside => ?_
  exact Bool.false_ne_true (free.2.symm.trans (alive fresh inside))

/-- Once the new process has taken its place, the caller waits. -/
theorem exec_noArguments (kernel : Kernel) {caller fresh : Nat} (apart : caller ≠ fresh)
    (killFlag : Nat) :
    (execProcess kernel caller fresh .noArguments killFlag).state caller = waiting := by
  simp only [execProcess, replaceCaller, start, insertToReadyQueue, setState, link_state,
    update_of_ne apart, update_self]

/-- An exec of a running process that cannot complete is refused exactly if it finds out early. -/
theorem exec_refused_iff {kernel : Kernel} {caller fresh : Nat} (lives : kernel.live caller = true)
    (runs : kernel.state caller ≠ waiting) (free : Free kernel fresh) (found : Found)
    (killFlag : Nat) :
    (CannotComplete found → Refused kernel caller (exec kernel caller fresh found killFlag)) ↔
      Early found := by
  have apart : caller ≠ fresh := ne_of_live lives free.2
  constructor
  · intro refuses
    by_contra late
    obtain ⟨hasUser, missing⟩ := not_or.mp late
    cases isPage : found.page with
    | false =>
      -- the arguments are found out about last, when the caller is waiting already
      have refused := refuses (.inr (.inr isPage))
      have isOutcome : outcome found = .noArguments := by rw [outcome, if_neg hasUser, if_pos isPage]
      have state := refused.state
      rw [exec, isOutcome, exec_noArguments kernel apart killFlag] at state
      exact runs state.symm
    | true =>
      -- a missing file is not an error
      cases isFile : found.file with
      | true => exact missing ⟨isFile, isPage⟩
      | false =>
        have refused := refuses (.inl isFile)
        have isOutcome : outcome found = .done := by
          rw [outcome, if_neg hasUser, if_neg (by rw [isPage]; decide)]
        have error := refused.error
        rw [exec, isOutcome] at error
        exact absurd error (show ¬ returned .done = -1 by decide)
  · rintro (noUser | ⟨hasFile, hasPage⟩) cannot
    · exact exec_noUser lives free killFlag noUser
    · rcases cannot with noFile | noUser | noPage
      · exact absurd (hasFile.symm.trans noFile) (by decide)
      · exact exec_noUser lives free killFlag noUser
      · exact absurd (hasPage.symm.trans noPage) (by decide)

/-- The only process, which runs. -/
def oneProcess : Kernel := setState (pushProcess blank 1) 1 running

/-- The user record of the only process is missing. -/
theorem exec_refused_one :
    Refused oneProcess 1 (exec oneProcess 1 2 ⟨true, false, false, true⟩ 1) := by
  have free : Free oneProcess 2 := ⟨by decide, by decide⟩
  exact (exec_refused_iff (by decide) (by decide) free ⟨true, false, false, true⟩ 1).mpr
    (.inl ⟨rfl, rfl⟩) (.inr (.inl ⟨rfl, rfl⟩))

/-- An `exec` that gets no page for its arguments. -/
def withoutPage : Int × Kernel := exec oneProcess 1 2 ⟨true, true, true, false⟩ 1

/-- An `exec` of a file that does not exist. -/
def withoutFile : Int × Kernel := exec oneProcess 1 2 ⟨false, true, true, true⟩ 0

/-- Without a page for the arguments the caller has lost its pid and is waiting, and a new
process is found under that pid. With a missing file there is a new process as well, and no
error is reported. -/
theorem exec_half_done :
    (withoutPage.2.pid 1 = 2 ∧ withoutPage.2.state 1 = waiting ∧ withoutPage.2.tree 1 = some 2 ∧
      ¬ Refused oneProcess 1 withoutPage) ∧
      withoutFile.1 = 0 ∧ withoutFile.2.tree 1 = some 2 ∧ ¬ Refused oneProcess 1 withoutFile := by
  refine ⟨⟨by decide, by decide, by decide, fun refused => ?_⟩, by decide, by decide,
    fun refused => ?_⟩
  · exact absurd refused.pid (by decide)
  · exact absurd refused.error (by decide)

end Balrog.ExecFailure
