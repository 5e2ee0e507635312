import Balrog.Runs
import Mathlib.Algebra.Group.Nat.Defs

/-!
# Process records, the process tree and the ready list

`process.c` and the parts of `tasking.c` and of the process system calls that decide
which processes exist, which state they are in and who waits for whom. A process
record is an address; each field of the C structure that these functions use is a
map from addresses. The process tree is the map from pids to records that the
red-black tree of `RbtRuns` implements.

A process is live from its insertion until `clean_process` frees its record. `live`
and `killed` are not read by any function: they record which processes are live and
the pids of those that were killed.

Left out: memory, files, names and user ids of a process, the sleeper tree (see
`Sleepers`), and the choice of the process that runs, so that any live process can
make a system call. Allocation succeeds.
-/

namespace Balrog.Processes

open Runs Function

/-- `PROCESS_STATE_READY` -/
def ready : Nat := 0

/-- `PROCESS_STATE_RUNNING` -/
def running : Nat := 1

/-- `PROCESS_STATE_WAITING` -/
def waiting : Nat := 2

/-- `PROCESS_STATE_DEAD` -/
def dead : Nat := 3

/-- `PROCESS_STATE_ZOMBIE` -/
def zombie : Nat := 4

/-- `PROCESS_STATE_SLEEPING` -/
def sleeping : Nat := 5

/-- The length of the array of waiting pids. -/
def waitCapacity : Nat := 5

/-- The process records, the process tree, the ready list and the static variables. -/
structure Kernel where
  pid : Nat → Nat
  state : Nat → Nat
  next : Nat → Nat
  prev : Nat → Nat
  waitSize : Nat → Nat
  waitList : Nat → Nat → Nat
  tree : Nat → Option Nat
  head : Nat
  tail : Nat
  size : Nat
  nextPid : Nat
  aboutToPark : Nat
  fatal : Bool
  live : Nat → Bool
  killed : List Nat

/-- How `proc_insert_to_ready_queue` puts a process at the end of the ready list. -/
def link (kernel : Kernel) (proc : Nat) : Kernel :=
  let kernel :=
    if kernel.head = 0 then
      { kernel with
        fatal := kernel.fatal || kernel.tail != 0
        head := proc
        tail := proc
        next := update kernel.next proc proc
        prev := update kernel.prev proc 0 }
    else
      { kernel with
        next := update (update kernel.next proc kernel.head) kernel.tail proc
        prev := update kernel.prev proc kernel.tail
        tail := proc }
  { kernel with
    prev := update kernel.prev kernel.head kernel.tail
    size := (kernel.size + 1) % 2 ^ 32 }

/-- How `__proc_transfert_to_wait` takes a process off the ready list. -/
def unlink (kernel : Kernel) (proc : Nat) : Kernel :=
  let kernel :=
    if kernel.size = 1 then { kernel with head := 0, tail := 0 }
    else if proc = kernel.head then
      { kernel with
        prev := update kernel.prev (kernel.next proc) kernel.tail
        next := update kernel.next kernel.tail (kernel.next proc)
        head := kernel.next proc }
    else if proc = kernel.tail then
      { kernel with
        next := update kernel.next (kernel.prev proc) kernel.head
        prev := update kernel.prev kernel.head (kernel.prev proc)
        tail := kernel.prev proc }
    else
      let next := update kernel.next (kernel.prev proc) (kernel.next proc)
      { kernel with
        next := next
        prev := update kernel.prev (next proc) (kernel.prev proc) }
  { kernel with size := (kernel.size + (2 ^ 32 - 1)) % 2 ^ 32 }

/-- `__proc_transfert_to_wait`; nothing stands for the result -1. -/
def transfertToWait (kernel : Kernel) (proc : Nat) : Option Kernel :=
  if kernel.state proc = ready ∨ kernel.state proc = running then some (unlink kernel proc)
  else none

/-- The kernel after the state of a process has been stored. -/
def setState (kernel : Kernel) (proc state : Nat) : Kernel :=
  { kernel with state := update kernel.state proc state }

/-- `proc_insert_to_ready_queue` -/
def insertToReadyQueue (kernel : Kernel) (proc : Nat) : Kernel :=
  let kernel := { kernel with tree := update kernel.tree (kernel.pid proc) (some proc) }
  setState (link kernel proc) proc ready

/-- `_proc_remove_process` -/
def removeProcess (kernel : Kernel) (proc : Nat) : Kernel :=
  if kernel.state proc = dead ∨ kernel.state proc = zombie then
    { kernel with tree := update kernel.tree (kernel.pid proc) none }
  else kernel

/-- `proc_transfert_to_ready` -/
def transfertToReady (kernel : Kernel) (pid expected : Nat) : Kernel :=
  match kernel.tree pid with
  | none => kernel
  | some proc =>
    let kernel := if kernel.state proc = expected then insertToReadyQueue kernel proc else kernel
    if kernel.state proc &&& expected ≠ 0 then
      setState kernel proc (kernel.state proc ^^^ expected)
    else kernel

/-- `proc_wake_process`: the loop over the first entries of the waiting array. -/
def wakeProcess (kernel : Kernel) (proc : Nat) : Nat → Kernel
  | 0 => kernel
  | index + 1 =>
    let kernel := wakeProcess kernel proc index
    if kernel.waitList proc index ≠ 0 then
      transfertToReady kernel (kernel.waitList proc index) waiting
    else kernel

/-- `clean_process`: the record is freed. -/
def cleanProcess (kernel : Kernel) (proc : Nat) : Kernel :=
  { kernel with
    live := update kernel.live proc false
    killed := kernel.pid proc :: kernel.killed }

/-- `__proc_kill` -/
def kill (kernel : Kernel) (proc : Nat) : Kernel :=
  let kernel := setState kernel proc dead
  let kernel :=
    if kernel.waitSize proc ≠ 0 then wakeProcess kernel proc (kernel.waitSize proc) else kernel
  cleanProcess (removeProcess kernel proc) proc

/-- `proc_kill_process` -/
def procKillProcess (kernel : Kernel) (pid : Nat) : Kernel :=
  match kernel.tree pid with
  | none => kernel
  | some proc =>
    match transfertToWait kernel proc with
    | none => kernel
    | some kernel => kill kernel proc

/-- `proc_kill` -/
def procKill (kernel : Kernel) (proc : Nat) : Kernel :=
  if kernel.state proc &&& waiting ≠ 0 ∨ kernel.state proc &&& sleeping ≠ 0 ∨
      kernel.state proc = dead ∨ kernel.state proc = zombie then
    kill kernel proc
  else
    match transfertToWait kernel proc with
    | none => kernel
    | some kernel => kill kernel proc

/-- `proc_transfert_to_waiting` -/
def transfertToWaiting (kernel : Kernel) (pid : Nat) : Kernel :=
  match kernel.tree pid with
  | none => kernel
  | some proc =>
    match transfertToWait kernel proc with
    | none => kernel
    | some kernel =>
      setState kernel proc (kernel.state proc ^^^ (ready ||| running) ||| waiting)

/-- `proc_to_sleep` -/
def procToSleep (kernel : Kernel) (pid newState : Nat) : Kernel :=
  match kernel.tree pid with
  | none => kernel
  | some proc =>
    match transfertToWait kernel proc with
    | none => kernel
    | some kernel => setState kernel proc (kernel.state proc &&& 0xfe ||| newState)

/-- Store a pid behind those in the waiting array. -/
def appendWaiting (kernel : Kernel) (proc pid : Nat) : Kernel :=
  { kernel with
    waitList := update kernel.waitList proc
      (update (kernel.waitList proc) (kernel.waitSize proc) pid)
    waitSize := update kernel.waitSize proc (kernel.waitSize proc + 1) }

/-- `proc_add_to_waiting`; nothing stands for the result -1. -/
def addToWaiting (kernel : Kernel) (pid target : Nat) : Option Kernel :=
  match kernel.tree target with
  | none => none
  | some proc =>
    if kernel.waitSize proc < waitCapacity then some (appendWaiting kernel proc pid) else none

/-- `wait_process` -/
def waitProcess (kernel : Kernel) (caller target : Nat) : Kernel :=
  match addToWaiting kernel (kernel.pid caller) target with
  | none => kernel
  | some kernel => procToSleep kernel (kernel.pid caller) waiting

/-- `new_process`: `vmalloc` returned `fresh`. The pid is an `int`, the counter has 64
bits. -/
def newProcess (kernel : Kernel) (fresh : Nat) : Kernel :=
  { kernel with
    nextPid := (kernel.nextPid + 1) % 2 ^ 64
    pid := update kernel.pid fresh ((kernel.nextPid + 1) % 2 ^ 64 % 2 ^ 32)
    state := update kernel.state fresh ready
    next := update kernel.next fresh 0
    prev := update kernel.prev fresh 0
    waitSize := update kernel.waitSize fresh 0
    waitList := update kernel.waitList fresh (fun _ => 0) }

/-- A new process is live and goes to the ready queue. -/
def start (kernel : Kernel) (proc : Nat) : Kernel :=
  insertToReadyQueue { kernel with live := update kernel.live proc true } proc

/-- `push_process`; `exec_process` does the same when no process runs yet. -/
def pushProcess (kernel : Kernel) (fresh : Nat) : Kernel :=
  start (newProcess kernel fresh) fresh

/-- `fork_process` -/
def forkProcess (kernel : Kernel) (fresh : Nat) : Kernel :=
  let kernel := newProcess kernel fresh
  start { kernel with
    waitSize := update kernel.waitSize fresh 0
    waitList := update kernel.waitList fresh (fun _ => 0) } fresh

/-- How `exec_process` hands the waiting pids over to the new process. -/
def moveWaiting (kernel : Kernel) (caller fresh : Nat) : Kernel :=
  if kernel.waitSize caller ≠ 0 then
    { kernel with
      waitList := update (update kernel.waitList fresh (kernel.waitList caller)) caller (fun _ => 0)
      waitSize := update (update kernel.waitSize fresh (kernel.waitSize caller)) caller 0 }
  else kernel

/-- How `exec_process` makes the new process take the place of the caller. -/
def replaceCaller (kernel : Kernel) (caller fresh : Nat) : Kernel :=
  let kernel := transfertToWaiting kernel (kernel.pid caller)
  let kernel := { kernel with
    pid := update (update kernel.pid fresh (kernel.pid caller)) caller (kernel.pid fresh) }
  start (setState kernel caller waiting) fresh

/-- How an `exec_process` ends: the user of the caller is unknown, the arguments could
not be pushed, or neither. -/
inductive ExecResult where
  | noUser
  | noArguments
  | done
deriving DecidableEq

/-- `exec_process` of a running process; `killFlag` is its last argument. -/
def execProcess (kernel : Kernel) (caller fresh : Nat) (result : ExecResult) (killFlag : Nat) :
    Kernel :=
  let kernel := newProcess kernel fresh
  match result with
  | .noUser => kernel
  | .noArguments => replaceCaller (moveWaiting kernel caller fresh) caller fresh
  | .done =>
    let kernel := replaceCaller (moveWaiting kernel caller fresh) caller fresh
    if killFlag = 1 then procKill kernel caller else kernel

/-- The `int` that a register is passed as. -/
def toInt (register : Nat) : Nat := register % 2 ^ 32

/-- `sys_park` -/
def sysPark (kernel : Kernel) (caller register : Nat) : Kernel :=
  if register ≠ 0 then
    transfertToReady { kernel with aboutToPark := 0 } (toInt register) waiting
  else if kernel.aboutToPark = kernel.pid caller then
    procToSleep kernel (kernel.pid caller) waiting
  else kernel

/-- `sys_setpark` -/
def sysSetpark (kernel : Kernel) (caller : Nat) : Kernel :=
  { kernel with aboutToPark := kernel.pid caller }

/-- `sys_exit` -/
def sysExit (kernel : Kernel) (caller : Nat) : Kernel :=
  procKillProcess kernel (kernel.pid caller)

/-- `sys_kill` with `SIGKILL` -/
def sysKill (kernel : Kernel) (register : Nat) : Kernel :=
  match kernel.tree (toInt register) with
  | none => kernel
  | some proc => procKill kernel proc

/-- `sys_sleep` -/
def sysSleep (kernel : Kernel) (caller : Nat) : Kernel :=
  procToSleep kernel (kernel.pid caller) sleeping

/-- What `wake_up` does to the process of a sleeper that is due. -/
def wakeSleeper (kernel : Kernel) (proc : Nat) : Kernel :=
  if kernel.state proc &&& sleeping ≠ 0 then
    if kernel.state proc = sleeping then transfertToReady kernel (kernel.pid proc) sleeping
    else setState kernel proc (kernel.state proc ^^^ sleeping)
  else kernel

/-- The calls that change the processes. -/
inductive Call where
  | push (fresh : Nat)
  | fork (caller fresh : Nat)
  | exec (caller fresh : Nat) (result : ExecResult) (killFlag : Nat)
  | wait (caller register : Nat)
  | park (caller register : Nat)
  | setpark (caller : Nat)
  | sleep (caller : Nat)
  | wake (proc : Nat)
  | exit (caller : Nat)
  | kill (register : Nat)

/-- One call on the kernel. -/
def step (kernel : Kernel) : Call → Kernel
  | .push fresh => pushProcess kernel fresh
  | .fork _ fresh => forkProcess kernel fresh
  | .exec caller fresh result killFlag => execProcess kernel caller fresh result killFlag
  | .wait caller register => waitProcess kernel caller (toInt register)
  | .park caller register => sysPark kernel caller register
  | .setpark caller => sysSetpark kernel caller
  | .sleep caller => sysSleep kernel caller
  | .wake proc => wakeSleeper kernel proc
  | .exit caller => sysExit kernel caller
  | .kill register => sysKill kernel register

/-- An address that `vmalloc` can return: it is not that of a live process. -/
def Free (kernel : Kernel) (fresh : Nat) : Prop := fresh ≠ 0 ∧ kernel.live fresh = false

/-- What the caller guarantees: new processes are unused, and callers are alive. -/
def Permitted (kernel : Kernel) : Call → Prop
  | .push fresh => Free kernel fresh
  | .fork caller fresh => kernel.live caller = true ∧ Free kernel fresh
  | .exec caller fresh _ _ => kernel.live caller = true ∧ Free kernel fresh
  | .wait caller _ => kernel.live caller = true
  | .park caller _ => kernel.live caller = true
  | .setpark caller => kernel.live caller = true
  | .sleep caller => kernel.live caller = true
  | .wake proc => kernel.live proc = true
  | .exit caller => kernel.live caller = true
  | .kill _ => True

/-- Before the first process. The records hold anything. -/
def Boot (kernel : Kernel) : Prop :=
  (∀ proc, kernel.live proc = false) ∧ (∀ pid, kernel.tree pid = none) ∧ kernel.head = 0 ∧
    kernel.tail = 0 ∧ kernel.size = 0 ∧ kernel.nextPid = 0 ∧ kernel.fatal = false ∧
    kernel.killed = []

/-- The process management, restricted to calls that meet a condition. -/
def machine (condition : Kernel → Call → Prop) : Machine Kernel Call where
  initial := Boot
  allowed kernel call := Permitted kernel call ∧ condition kernel call
  step kernel call := some (step kernel call)

/-- The next pid is not one that was given before. -/
def PidsLeft (kernel : Kernel) : Call → Prop
  | .push _ => kernel.nextPid + 1 < 2 ^ 32
  | .fork _ _ => kernel.nextPid + 1 < 2 ^ 32
  | .exec _ _ _ _ => kernel.nextPid + 1 < 2 ^ 32
  | _ => True

/-- No process waits for itself. -/
def WaitsForOther (kernel : Kernel) : Call → Prop
  | .wait caller register => toInt register ≠ kernel.pid caller
  | _ => True

variable {condition : Kernel → Call → Prop} {caller fresh proc : Nat}

/-- What holds at boot and is kept by every call holds throughout a run. -/
theorem machine_holds {property : Kernel → Prop} (starts : ∀ kernel, Boot kernel → property kernel)
    (keeps : ∀ kernel call, property kernel → Permitted kernel call → condition kernel call →
      property (step kernel call)) {kernel : Kernel}
    (reached : Reachable (machine condition) kernel) : property kernel := by
  refine Inductive.holds ⟨starts, fun before call holds allowed => ?_⟩ reached
  exact ⟨step before call, rfl, keeps before call holds allowed.1 allowed.2⟩

/-- A kernel before the first process whose records are all clear. -/
def blank : Kernel where
  pid _ := 0
  state _ := 0
  next _ := 0
  prev _ := 0
  waitSize _ := 0
  waitList _ _ := 0
  tree _ := none
  head := 0
  tail := 0
  size := 0
  nextPid := 0
  aboutToPark := 0
  fatal := false
  live _ := false
  killed := []

/-- The blank kernel is one at boot. -/
theorem blank_boot : Boot blank := by
  simp [Boot, blank]

/-- The kernel after a list of calls. -/
def run (kernel : Kernel) (calls : List Call) : Kernel := calls.foldl step kernel

/-- Each call of a list is permitted and meets the condition when it is made. -/
def Admits (condition : Kernel → Call → Prop) (kernel : Kernel) : List Call → Prop
  | [] => True
  | call :: calls => Permitted kernel call ∧ condition kernel call ∧
    Admits condition (step kernel call) calls

/-- A run of permitted calls leads to a reachable kernel. -/
theorem run_reachable {kernel : Kernel} {calls : List Call}
    (reached : Reachable (machine condition) kernel) (admitted : Admits condition kernel calls) :
    Reachable (machine condition) (run kernel calls) := by
  induction calls generalizing kernel with
  | nil => exact reached
  | cons call calls ih =>
    obtain ⟨permitted, holds, rest⟩ := admitted
    exact ih (Reachable.step reached ⟨permitted, holds⟩ rfl) rest

/-! ### What the operations leave alone -/

/-- What processes and pids there are, without states and links. -/
structure SameTable (before after : Kernel) : Prop where
  pid : after.pid = before.pid
  live : after.live = before.live
  tree : after.tree = before.tree
  waitSize : after.waitSize = before.waitSize
  waitList : after.waitList = before.waitList
  nextPid : after.nextPid = before.nextPid
  killed : after.killed = before.killed

theorem SameTable.refl (kernel : Kernel) : SameTable kernel kernel :=
  ⟨rfl, rfl, rfl, rfl, rfl, rfl, rfl⟩

theorem SameTable.trans {first second third : Kernel} (left : SameTable first second)
    (right : SameTable second third) : SameTable first third :=
  ⟨right.pid.trans left.pid, right.live.trans left.live, right.tree.trans left.tree,
    right.waitSize.trans left.waitSize, right.waitList.trans left.waitList,
    right.nextPid.trans left.nextPid, right.killed.trans left.killed⟩

/-- Storing a state changes nothing else. -/
theorem setState_same (kernel : Kernel) (proc state : Nat) :
    SameTable kernel (setState kernel proc state) :=
  ⟨rfl, rfl, rfl, rfl, rfl, rfl, rfl⟩

@[simp] theorem setState_state (kernel : Kernel) (proc state : Nat) :
    (setState kernel proc state).state = update kernel.state proc state := rfl

/-- Linking changes the ready list only. -/
theorem link_same (kernel : Kernel) (proc : Nat) : SameTable kernel (link kernel proc) := by
  unfold link
  split_ifs <;> exact ⟨rfl, rfl, rfl, rfl, rfl, rfl, rfl⟩

@[simp] theorem link_state (kernel : Kernel) (proc : Nat) :
    (link kernel proc).state = kernel.state := by
  unfold link
  split_ifs <;> rfl

/-- Insertion is an assignment in the tree, as far as pids are concerned. -/
theorem insertToReadyQueue_same (kernel : Kernel) (proc : Nat) :
    SameTable { kernel with tree := update kernel.tree (kernel.pid proc) (some proc) }
      (insertToReadyQueue kernel proc) :=
  (link_same _ proc).trans (setState_same _ proc ready)

@[simp] theorem insertToReadyQueue_state (kernel : Kernel) (proc : Nat) :
    (insertToReadyQueue kernel proc).state = update kernel.state proc ready := by
  simp [insertToReadyQueue]

/-- Unlinking changes the ready list only. -/
theorem unlink_same (kernel : Kernel) (proc : Nat) : SameTable kernel (unlink kernel proc) := by
  unfold unlink
  split_ifs <;> exact ⟨rfl, rfl, rfl, rfl, rfl, rfl, rfl⟩

@[simp] theorem unlink_state (kernel : Kernel) (proc : Nat) :
    (unlink kernel proc).state = kernel.state := by
  unfold unlink
  split_ifs <;> rfl

/-- A process that `__proc_transfert_to_wait` accepts was ready or running and is now off
the list. -/
theorem transfertToWait_spec {kernel after : Kernel}
    (taken : transfertToWait kernel proc = some after) :
    (kernel.state proc = ready ∨ kernel.state proc = running) ∧ after = unlink kernel proc := by
  unfold transfertToWait at taken
  split_ifs at taken with listed
  exact ⟨listed, (Option.some.inj taken).symm⟩

section

variable (kernel : Kernel)
include kernel

/-- A pid is added to the waiting array of the process it waits for. -/
theorem waitProcess_eq (caller target : Nat) :
    waitProcess kernel caller target = kernel ∨ ∃ holder, kernel.tree target = some holder ∧
      waitProcess kernel caller target =
        procToSleep (appendWaiting kernel holder (kernel.pid caller)) (kernel.pid caller) waiting := by
  unfold waitProcess addToWaiting
  split
  · exact .inl rfl
  · rename_i recorded added
    split at added
    · cases added
    · rename_i holder found
      split_ifs at added
      obtain rfl := Option.some.inj added
      exact .inr ⟨holder, found, rfl⟩

/-- Leaving the ready list for another state changes no pid. -/
theorem procToSleep_same (pid newState : Nat) :
    SameTable kernel (procToSleep kernel pid newState) := by
  unfold procToSleep
  split
  · exact .refl kernel
  · split
    · exact .refl kernel
    · rename_i taken
      obtain ⟨_, rfl⟩ := transfertToWait_spec taken
      exact (unlink_same _ _).trans (setState_same _ _ _)

/-- A transfer changes the ready list and the state only. -/
theorem transfertToWaiting_same (pid : Nat) :
    SameTable kernel (transfertToWaiting kernel pid) := by
  unfold transfertToWaiting
  split
  · exact .refl kernel
  · split
    · exact .refl kernel
    · rename_i taken
      obtain ⟨_, rfl⟩ := transfertToWait_spec taken
      exact (unlink_same _ _).trans (setState_same _ _ _)

/-- The loop over no waiting pids does nothing, so the test before it does not matter. -/
theorem kill_eq (proc : Nat) :
    kill kernel proc = cleanProcess (removeProcess
      (wakeProcess (setState kernel proc dead) proc (kernel.waitSize proc)) proc) proc := by
  unfold kill
  by_cases vacant : kernel.waitSize proc = 0
  · simp [vacant, setState, wakeProcess]
  · simp [vacant, setState]

/-- Whatever `proc_kill` does before the kill changes no pid and no other state. -/
theorem procKill_eq (proc : Nat) :
    procKill kernel proc = kernel ∨ procKill kernel proc = kill kernel proc ∨
      procKill kernel proc = kill (unlink kernel proc) proc := by
  unfold procKill
  split
  · exact .inr (.inl rfl)
  · split
    · exact .inl rfl
    · rename_i taken
      obtain ⟨_, rfl⟩ := transfertToWait_spec taken
      exact .inr (.inr rfl)

/-- A kill does nothing, or it unlinks and ends the process of the pid. -/
theorem procKillProcess_eq (pid : Nat) :
    procKillProcess kernel pid = kernel ∨ ∃ proc, kernel.tree pid = some proc ∧
      procKillProcess kernel pid = kill (unlink kernel proc) proc := by
  unfold procKillProcess
  split
  · exact .inl rfl
  · rename_i proc found
    split
    · exact .inl rfl
    · rename_i taken
      obtain ⟨_, rfl⟩ := transfertToWait_spec taken
      exact .inr ⟨proc, found, rfl⟩

end

/-- A live process is not a record that is free. -/
theorem ne_of_live {kernel : Kernel} {other : Nat} (lives : kernel.live proc = true)
    (free : kernel.live other = false) : proc ≠ other := by
  rintro rfl
  exact Bool.false_ne_true (free.symm.trans lives)

/-- While pids are left, the counter does not wrap around. -/
theorem newProcess_pid {kernel : Kernel} (left : kernel.nextPid + 1 < 2 ^ 32) :
    (kernel.nextPid + 1) % 2 ^ 64 = kernel.nextPid + 1 ∧
      (kernel.nextPid + 1) % 2 ^ 64 % 2 ^ 32 = kernel.nextPid + 1 := by
  have wide : (kernel.nextPid + 1) % 2 ^ 64 = kernel.nextPid + 1 :=
    Nat.mod_eq_of_lt (Nat.lt_trans left (by decide))
  exact ⟨wide, by rw [wide, Nat.mod_eq_of_lt left]⟩

/-- The new process of `exec_process` before it takes the caller's place. -/
theorem moveWaiting_table {kernel moved : Kernel} (left : kernel.nextPid + 1 < 2 ^ 32)
    (isMoved : moved = moveWaiting (newProcess kernel fresh) caller fresh) :
    moved.pid = update kernel.pid fresh (kernel.nextPid + 1) ∧ moved.live = kernel.live ∧
      moved.tree = kernel.tree ∧ moved.state = update kernel.state fresh ready ∧
      moved.nextPid = kernel.nextPid + 1 ∧ moved.killed = kernel.killed := by
  obtain ⟨counted, given⟩ := newProcess_pid left
  subst isMoved
  unfold moveWaiting
  split <;> exact ⟨by simp only [newProcess, given], rfl, rfl, rfl, counted, rfl⟩

/-- `fork_process` clears an array that is clear. -/
theorem forkProcess_eq (kernel : Kernel) (fresh : Nat) :
    forkProcess kernel fresh = pushProcess kernel fresh := by
  simp [forkProcess, pushProcess, newProcess]

/-- What `exec_process` does to pids when the new process takes the caller's place. -/
theorem replaceCaller_table (kernel : Kernel) (apart : fresh ≠ caller) :
    SameTable { kernel with
      pid := update (update kernel.pid fresh (kernel.pid caller)) caller (kernel.pid fresh)
      tree := update kernel.tree (kernel.pid caller) (some fresh)
      live := update kernel.live fresh true } (replaceCaller kernel caller fresh) := by
  have same := transfertToWaiting_same kernel (kernel.pid caller)
  have pidOf : update (update kernel.pid fresh (kernel.pid caller)) caller (kernel.pid fresh) fresh =
      kernel.pid caller := by
    rw [update_of_ne apart, update_self]
  unfold replaceCaller start
  refine SameTable.trans ?_ (insertToReadyQueue_same _ fresh)
  constructor <;> simp only [setState, same.pid, same.live, same.tree, same.waitSize,
    same.waitList, same.nextPid, same.killed, pidOf]

/-- The replaced caller waits. -/
theorem replaceCaller_caller (kernel : Kernel) (apart : fresh ≠ caller) :
    (replaceCaller kernel caller fresh).state caller = waiting := by
  simp [replaceCaller, start, apart.symm]

end Balrog.Processes
