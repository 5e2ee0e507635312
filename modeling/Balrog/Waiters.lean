import Balrog.ProcessTree

/-!
# Processes that wait for a process

`wait_process` records the pid of the caller in the waiting array of the awaited
process and puts the caller to sleep. When the awaited process dies, the pids of the
array are woken; when it is replaced by `exec_process`, the array moves on to its
successor. The tree keeps the freed record of a process that was killed while it
waited for itself (see `ProcessTree`), and a later `wait_process` on that pid records
its caller there, where nothing will wake it. In every run without a wait for
oneself, and with pids left, a waiting process is recorded at a live process.
-/

namespace Balrog.Waiters

open Runs Processes ProcessTree Function

/-- The waiting list of a process holds the pid of another. -/
def Recorded (kernel : Kernel) (holder proc : Nat) : Prop :=
  ∃ index < kernel.waitSize holder, kernel.waitList holder index = kernel.pid proc

/-- Every live process is in the tree and ready or waiting, and the waiting ones are
recorded at a live process. -/
structure Waiting (kernel : Kernel) : Prop where
  resolving : Resolving kernel
  listed : ∀ proc, kernel.live proc = true → kernel.tree (kernel.pid proc) = some proc
  calm : ∀ proc, kernel.live proc = true → kernel.state proc = ready ∨ kernel.state proc = waiting
  recorded : ∀ proc, kernel.live proc = true → kernel.state proc = waiting →
    ∃ holder, kernel.live holder = true ∧ Recorded kernel holder proc

variable {kernel : Kernel} {proc caller fresh pid holder : Nat}

theorem transfertToReady_ready (found : kernel.tree pid = some proc)
    (calm : kernel.state proc = ready ∨ kernel.state proc = waiting) :
    (transfertToReady kernel pid waiting).state proc = ready := by
  unfold transfertToReady
  rw [found]
  rcases calm with isReady | isWaiting
  · simp [isReady, ready, waiting]
  · simp [isWaiting, ready]

variable {other target count : Nat}

/-- The loop makes every process ready whose pid is in the array. -/
theorem wakeProcess_woken (resolving : Resolving kernel)
    (found : kernel.tree (kernel.pid other) = some other) (nonzero : kernel.pid other ≠ 0)
    (calm : kernel.state other = ready ∨ kernel.state other = waiting)
    (present : ∃ index < count, kernel.waitList proc index = kernel.pid other) :
    (wakeProcess kernel proc count).state other = ready := by
  induction count with
  | zero =>
    obtain ⟨index, below, _⟩ := present
    omega
  | succ count ih =>
    have same := wakeProcess_same resolving proc count
    by_cases earlier : ∃ index < count, kernel.waitList proc index = kernel.pid other
    · have isReady := ih earlier
      simp only [wakeProcess]
      split
      · rename_i entry
        by_cases again : (wakeProcess kernel proc count).tree
            ((wakeProcess kernel proc count).waitList proc count) = some other
        · exact transfertToReady_ready again (.inl isReady)
        · rw [transfertToReady_other again, isReady]
      · exact isReady
    · have last : kernel.waitList proc count = kernel.pid other := by
        obtain ⟨index, below, holds⟩ := present
        rcases Nat.lt_succ_iff_lt_or_eq.mp below with less | rfl
        · exact absurd ⟨index, less, holds⟩ earlier
        · exact holds
      have untouched : (wakeProcess kernel proc count).state other = kernel.state other :=
        wakeProcess_other resolving (fun index below holds => earlier ⟨index, below, holds⟩)
      simp only [wakeProcess]
      rw [same.waitList, last, if_pos nonzero]
      refine transfertToReady_ready ?_ ?_
      · rw [same.tree, found]
      · rw [untouched]
        exact calm

section

variable (waiters : Waiting kernel)
include waiters

/-- The states after a kill: those in the waiting array are ready, the others are as
before. -/
theorem kill_states (lives : kernel.live other = true) (different : other ≠ proc) :
    (Recorded kernel proc other → (kill kernel proc).state other = ready) ∧
      (¬ Recorded kernel proc other → (kill kernel proc).state other = kernel.state other) := by
  have dying := waiters.resolving.frame (setState_same kernel proc dead)
  have kept : (kill kernel proc).state other =
      (wakeProcess (setState kernel proc dead) proc (kernel.waitSize proc)).state other := by
    rw [kill_eq]
    unfold cleanProcess removeProcess
    split <;> rfl
  have before : (setState kernel proc dead).state other = kernel.state other := by
    simp [different]
  rw [kept]
  refine ⟨fun present => ?_, fun absent => ?_⟩
  · refine wakeProcess_woken dying (waiters.listed other lives)
      (waiters.resolving.bounded other lives).1 ?_ present
    rw [before]
    exact waiters.calm other lives
  · rw [wakeProcess_other dying, before]
    exact fun index below holds => absent ⟨index, below, holds⟩

/-- A kill wakes those that wait for the process, so no one waits for it any more. -/
theorem kill_waiting (isLive : kernel.live proc = true) :
    Waiting (kill kernel proc) := by
  have table := kill_table waiters.resolving isLive
  have livesAfter : (kill kernel proc).live = update kernel.live proc false := table.live
  have alive {other : Nat} (lives : (kill kernel proc).live other = true) :
      other ≠ proc ∧ kernel.live other = true := by
    rw [livesAfter, update_apply] at lives
    split_ifs at lives with same
    exact ⟨same, lives⟩
  refine ⟨kill_resolving waiters.resolving isLive, fun other lives => ?_, fun other lives => ?_,
    fun other lives isWaiting => ?_⟩ <;> obtain ⟨different, lived⟩ := alive lives
  · rw [table.tree, table.pid]
    simp only [cleanProcess]
    rw [update_of_ne]
    · exact waiters.listed other lived
    · exact fun same => different (waiters.resolving.distinct other proc lived isLive same)
  · obtain ⟨woken, kept⟩ := kill_states waiters lived different
    by_cases present : Recorded kernel proc other
    · exact .inl (woken present)
    · rw [kept present]
      exact waiters.calm other lived
  · obtain ⟨woken, kept⟩ := kill_states waiters lived different
    by_cases present : Recorded kernel proc other
    · exact absurd ((woken present).symm.trans isWaiting) (by decide)
    · rw [kept present] at isWaiting
      obtain ⟨holder, holderLives, recorded⟩ := waiters.recorded other lived isWaiting
      have apart : holder ≠ proc := by
        rintro rfl
        exact present recorded
      refine ⟨holder, ?_, ?_⟩
      · rw [livesAfter, update_of_ne apart]
        exact holderLives
      · rw [Recorded, table.waitSize, table.waitList, table.pid]
        exact recorded

/-- Taking a process off the list changes nothing that matters here. -/
theorem unlink_waiting (proc : Nat) : Waiting (unlink kernel proc) := by
  have same := unlink_same kernel proc
  refine ⟨waiters.resolving.frame same, ?_, ?_, ?_⟩
  · rw [same.live, same.tree, same.pid]
    exact waiters.listed
  · rw [same.live, unlink_state]
    exact waiters.calm
  · simp only [Recorded, same.live, unlink_state, same.waitSize, same.waitList, same.pid]
    exact waiters.recorded

theorem procKill_live (isLive : kernel.live proc = true) :
    procKill kernel proc = kill kernel proc ∨
      procKill kernel proc = kill (unlink kernel proc) proc := by
  unfold procKill
  rcases waiters.calm proc isLive with isReady | isWaiting
  · right
    simp [isReady, transfertToWait, ready, waiting, sleeping, dead, zombie]
  · left
    simp [isWaiting, waiting]

theorem procKill_waiting (isLive : kernel.live proc = true) :
    Waiting (procKill kernel proc) := by
  rcases procKill_live waiters isLive with same | same <;> rw [same]
  · exact kill_waiting waiters isLive
  · exact kill_waiting (unlink_waiting waiters proc) (by rwa [(unlink_same kernel proc).live])

theorem procKillProcess_waiting (pid : Nat) :
    Waiting (procKillProcess kernel pid) := by
  rcases procKillProcess_eq kernel pid with same | ⟨proc, found, same⟩ <;> rw [same]
  · exact waiters
  · refine kill_waiting (unlink_waiting waiters proc) ?_
    rw [(unlink_same kernel proc).live]
    exact (waiters.resolving.resolves pid proc found).1

theorem pushProcess_waiting (free : kernel.live fresh = false)
    (left : kernel.nextPid + 1 < 2 ^ 32) : Waiting (pushProcess kernel fresh) := by
  have table := insertToReadyQueue_same
    { newProcess kernel fresh with live := update kernel.live fresh true } fresh
  obtain ⟨_, given⟩ := newProcess_pid left
  have apart {other : Nat} (lives : kernel.live other = true) : other ≠ fresh :=
    ne_of_live lives free
  have pids : (pushProcess kernel fresh).pid = update kernel.pid fresh (kernel.nextPid + 1) := by
    refine table.pid.trans ?_
    simp only [newProcess, given]
  have trees : (pushProcess kernel fresh).tree =
      update kernel.tree (kernel.nextPid + 1) (some fresh) := by
    refine table.tree.trans ?_
    simp only [newProcess, given, update_self]
  have lives : (pushProcess kernel fresh).live = update kernel.live fresh true := table.live
  have states : (pushProcess kernel fresh).state = update kernel.state fresh ready := by
    simp [pushProcess, start, newProcess]
  have alive {other : Nat} (isLive : (pushProcess kernel fresh).live other = true) :
      other = fresh ∨ kernel.live other = true := by
    rw [lives, update_apply] at isLive
    split_ifs at isLive with same
    · exact .inl same
    · exact .inr isLive
  refine ⟨pushProcess_resolving waiters.resolving free left, fun other isLive => ?_,
    fun other isLive => ?_, fun other isLive isWaiting => ?_⟩ <;>
    rcases alive isLive with rfl | lived
  · simp [pids, trees]
  · rw [pids, trees, update_of_ne (apart lived),
      update_of_ne (waiters.resolving.next_unused.1 other lived)]
    exact waiters.listed other lived
  · simp [states]
  · rw [states, update_of_ne (apart lived)]
    exact waiters.calm other lived
  · rw [states, update_self] at isWaiting
    exact absurd isWaiting (by decide)
  · rw [states, update_of_ne (apart lived)] at isWaiting
    obtain ⟨holder, holderLives, index, below, holds⟩ := waiters.recorded other lived isWaiting
    refine ⟨holder, ?_, index, ?_, ?_⟩
    · rw [lives, update_of_ne (apart holderLives)]
      exact holderLives
    · rw [show (pushProcess kernel fresh).waitSize = update kernel.waitSize fresh 0 from
        table.waitSize, update_of_ne (apart holderLives)]
      exact below
    · rw [show (pushProcess kernel fresh).waitList = update kernel.waitList fresh (fun _ => 0) from
        table.waitList, pids, update_of_ne (apart holderLives), update_of_ne (apart lived)]
      exact holds

end

/-- The state of a process that gives up the processor for another state. -/
theorem procToSleep_state (found : kernel.tree pid = some proc) (newState other : Nat) :
    (procToSleep kernel pid newState).state other = if other = proc ∧
      (kernel.state proc = ready ∨ kernel.state proc = running) then
        kernel.state proc &&& 0xfe ||| newState else kernel.state other := by
  unfold procToSleep transfertToWait
  simp only [found]
  by_cases listed : kernel.state proc = ready ∨ kernel.state proc = running
  · by_cases same : other = proc
    · simp [listed, same]
    · simp [listed, same]
  · simp [listed]

theorem recorded_append (recorded : Recorded kernel other proc) :
    Recorded (appendWaiting kernel holder target) other proc := by
  obtain ⟨index, below, holds⟩ := recorded
  by_cases same : other = holder
  · subst same
    refine ⟨index, ?_, ?_⟩
    · simp only [appendWaiting, update_self]
      omega
    · simp only [appendWaiting, update_self]
      rwa [update_of_ne (by omega)]
  · refine ⟨index, ?_, ?_⟩
    · simpa [appendWaiting, same] using below
    · simpa [appendWaiting, same] using holds

theorem waitProcess_waiting (waiters : Waiting kernel) (isLive : kernel.live caller = true)
    (other : target ≠ kernel.pid caller) : Waiting (waitProcess kernel caller target) := by
  have resolving := waitProcess_resolving waiters.resolving other
  rcases waitProcess_eq kernel caller target with same | ⟨holder, found, same⟩
  · rwa [same]
  · rw [same] at resolving ⊢
    have holderLives := (waiters.resolving.resolves target holder found).1
    have table := procToSleep_same (appendWaiting kernel holder (kernel.pid caller))
      (kernel.pid caller) waiting
    have listed : (appendWaiting kernel holder (kernel.pid caller)).tree (kernel.pid caller) =
        some caller := waiters.listed caller isLive
    have states (process : Nat) := procToSleep_state listed waiting process
    refine ⟨resolving, ?_, fun process lives => ?_, fun process lives isWaiting => ?_⟩
    · rw [table.live, table.tree, table.pid]
      exact waiters.listed
    · rw [states process]
      rw [table.live] at lives
      split_ifs with leaves
      · rcases leaves.2 with isReady | isRunning
        · exact .inr (by rw [isReady]; rfl)
        · rcases waiters.calm caller isLive with calm | calm <;>
            exact absurd (calm.symm.trans isRunning) (by decide)
      · exact waiters.calm process lives
    · rw [states process] at isWaiting
      rw [table.live] at lives
      simp only [Recorded, table.live, table.waitSize, table.waitList, table.pid]
      split_ifs at isWaiting with leaves
      · obtain ⟨rfl, _⟩ := leaves
        exact ⟨holder, holderLives, kernel.waitSize holder, by simp [appendWaiting],
          by simp [appendWaiting]⟩
      · obtain ⟨holder', holderLives', recorded⟩ := waiters.recorded process lives isWaiting
        exact ⟨holder', holderLives', recorded_append recorded⟩

/-- The state changes of `proc_transfert_to_waiting` are those of the process with the
given pid. -/
theorem transfertToWaiting_other (found : kernel.tree pid = some proc) (different : other ≠ proc) :
    (transfertToWaiting kernel pid).state other = kernel.state other := by
  unfold transfertToWaiting transfertToWait
  simp only [found]
  split_ifs <;> simp [different]

/-- The states when the new process has taken the caller's place. -/
theorem replaceCaller_states (fresh : Nat) (found : kernel.tree (kernel.pid caller) = some caller) :
    (replaceCaller kernel caller fresh).state fresh = ready ∧
      ∀ other, other ≠ caller → other ≠ fresh →
        (replaceCaller kernel caller fresh).state other = kernel.state other := by
  unfold replaceCaller start
  refine ⟨by simp, fun other notCaller notFresh => ?_⟩
  simp [notFresh, notCaller, transfertToWaiting_other found notCaller]

/-- Those recorded at the caller are then recorded at the new process. -/
theorem recorded_moved (apart : fresh ≠ caller) (holderOther : holder ≠ fresh)
    (recorded : Recorded kernel holder proc) :
    Recorded (moveWaiting kernel caller fresh) (if holder = caller then fresh else holder) proc := by
  obtain ⟨index, below, holds⟩ := recorded
  unfold moveWaiting
  by_cases same : holder = caller
  · subst same
    rw [if_pos rfl, if_pos (by omega)]
    exact ⟨index, by simpa [apart] using below, by simpa [apart] using holds⟩
  · rw [if_neg same]
    split
    · exact ⟨index, by simpa [same, holderOther] using below, by simpa [same, holderOther] using holds⟩
    · exact ⟨index, below, holds⟩

/-- The caller is killed without a waiting pid left. -/
theorem kill_alone (vacant : kernel.waitSize proc = 0) :
    (kill kernel proc).state = update kernel.state proc dead := by
  rw [kill_eq, vacant]
  unfold cleanProcess removeProcess
  split <;> rfl

/-- What is there after an `exec_process` that replaced its caller: the new process is
ready and has the caller's pid, and those recorded at the caller are recorded at it. The
others are as before. -/
structure Replaced (before after : Kernel) (caller fresh : Nat) : Prop where
  lives : ∀ other, after.live other = true ↔
    other = fresh ∨ (other ≠ caller ∧ before.live other = true)
  freshPid : after.pid fresh = before.pid caller
  pids : ∀ other, before.live other = true → other ≠ caller → after.pid other = before.pid other
  freshTree : after.tree (before.pid caller) = some fresh
  trees : ∀ pid ≤ before.nextPid, pid ≠ before.pid caller → after.tree pid = before.tree pid
  freshState : after.state fresh = ready
  states : ∀ other, before.live other = true → other ≠ caller →
    after.state other = before.state other
  moved : ∀ holder proc, before.live holder = true → before.live proc = true → proc ≠ caller →
    Recorded before holder proc → Recorded after (if holder = caller then fresh else holder) proc

/-- A new process takes no record of a wait away. -/
theorem recorded_created (holderOther : holder ≠ fresh) (procOther : proc ≠ fresh)
    (recorded : Recorded kernel holder proc) : Recorded (newProcess kernel fresh) holder proc := by
  obtain ⟨index, below, holds⟩ := recorded
  refine ⟨index, ?_, ?_⟩
  · simpa [newProcess, holderOther] using below
  · simpa [newProcess, holderOther, procOther] using holds

theorem execProcess_replaced (waiters : Waiting kernel) (isLive : kernel.live caller = true)
    (free : kernel.live fresh = false) (left : kernel.nextPid + 1 < 2 ^ 32) :
    Replaced kernel (execProcess kernel caller fresh .done 1) caller fresh := by
  have isOld {other : Nat} (lives : kernel.live other = true) : other ≠ fresh :=
    ne_of_live lives free
  have apart : fresh ≠ caller := (isOld isLive).symm
  -- The kernel after the waiting array moved.
  obtain ⟨moved, isMoved⟩ : ∃ moved, moved = moveWaiting (newProcess kernel fresh) caller fresh :=
    ⟨_, rfl⟩
  obtain ⟨pids, lives, trees, states, _⟩ := moveWaiting_table left isMoved
  have callerPid : moved.pid caller = kernel.pid caller := by
    rw [pids, update_of_ne apart.symm]
  have found : moved.tree (moved.pid caller) = some caller := by
    rw [callerPid, trees]
    exact waiters.listed caller isLive
  have vacant : moved.waitSize caller = 0 := by
    rw [isMoved]
    exact (moveWaiting_spec (newProcess_resolving waiters.resolving free left) isLive apart
      (update_self ..)).1
  -- The kernel before the caller is killed.
  have replaced := replaced_resolving waiters.resolving isLive free left
  have table := replaceCaller_table moved apart
  have callerState := replaceCaller_caller moved apart
  obtain ⟨freshState, otherStates⟩ := replaceCaller_states fresh found
  have callerLives : (replaceCaller moved caller fresh).live caller = true := by
    rw [table.live]
    simp [apart.symm, lives, isLive]
  rw [← isMoved] at replaced
  have isKill : execProcess kernel caller fresh .done 1 =
      kill (replaceCaller moved caller fresh) caller := by
    simp only [execProcess, ← isMoved, if_true]
    unfold procKill
    rw [if_pos]
    left
    rw [callerState]
    decide
  have killed := kill_table replaced callerLives
  have killedStates := kill_alone (table.waitSize ▸ vacant :
    (replaceCaller moved caller fresh).waitSize caller = 0)
  rw [isKill]
  constructor
  · intro other
    rw [killed.live]
    simp only [cleanProcess, table.live, lives, update_apply]
    by_cases isCaller : other = caller
    · simp [isCaller, apart.symm]
    · by_cases isFresh : other = fresh <;> simp [isCaller, isFresh]
      exact apart
  · rw [killed.pid]
    simp only [cleanProcess, table.pid]
    rw [update_of_ne apart, update_self, callerPid]
  · intro other lived isOther
    rw [killed.pid]
    simp only [cleanProcess, table.pid]
    rw [update_of_ne isOther, update_of_ne (isOld lived), pids, update_of_ne (isOld lived)]
  · rw [killed.tree]
    simp only [cleanProcess, table.tree, table.pid, update_self, callerPid, pids]
    rw [update_of_ne, update_self]
    exact waiters.resolving.next_unused.1 caller isLive
  · intro pid below isOther
    rw [killed.tree]
    simp only [cleanProcess, table.tree, table.pid, update_self, callerPid, pids, trees]
    rw [update_of_ne (by omega), update_of_ne isOther]
  · rw [killedStates, update_of_ne apart, freshState]
  · intro other lived isOther
    rw [killedStates, update_of_ne isOther, otherStates other isOther (isOld lived), states,
      update_of_ne (isOld lived)]
  · intro holder proc holderLives procLives isOther recorded
    have created := recorded_created (isOld holderLives) (isOld procLives) recorded
    obtain ⟨index, below, holds⟩ := recorded_moved apart (isOld holderLives) created
    rw [← isMoved] at below holds
    refine ⟨index, ?_, ?_⟩
    · rw [killed.waitSize]
      simp only [cleanProcess, table.waitSize]
      exact below
    · rw [killed.waitList, killed.pid]
      simp only [cleanProcess, table.waitList, table.pid, update_of_ne isOther,
        update_of_ne (isOld procLives)]
      exact holds

/-- The successor of a process is ready, and no one loses the record of a wait. -/
theorem execProcess_waiting (waiters : Waiting kernel) (isLive : kernel.live caller = true)
    (free : kernel.live fresh = false) (left : kernel.nextPid + 1 < 2 ^ 32) :
    Waiting (execProcess kernel caller fresh .done 1) := by
  have replaced := execProcess_replaced waiters isLive free left
  refine ⟨execProcess_resolving waiters.resolving isLive free left .done 1, fun other lives => ?_,
    fun other lives => ?_, fun other lives isWaiting => ?_⟩ <;>
    rcases (replaced.lives other).mp lives with rfl | ⟨isOther, lived⟩
  · rw [replaced.freshPid, replaced.freshTree]
  · rw [replaced.pids other lived isOther, replaced.trees _ (waiters.resolving.bounded other lived).2]
    · exact waiters.listed other lived
    · exact fun same => isOther (waiters.resolving.distinct other caller lived isLive same)
  · exact .inl replaced.freshState
  · rw [replaced.states other lived isOther]
    exact waiters.calm other lived
  · exact absurd (replaced.freshState.symm.trans isWaiting) (by decide)
  · rw [replaced.states other lived isOther] at isWaiting
    obtain ⟨holder, holderLives, recorded⟩ := waiters.recorded other lived isWaiting
    refine ⟨_, ?_, replaced.moved holder other holderLives lived isOther recorded⟩
    rw [replaced.lives]
    split_ifs with same
    · exact .inl rfl
    · exact .inr ⟨same, holderLives⟩

/-- The calls of these runs: `exec_process` replaces its caller, and no process parks or
sleeps. -/
def Replaces : Call → Prop
  | .exec _ _ result killFlag => result = .done ∧ killFlag = 1
  | .park _ _ | .setpark _ | .sleep _ | .wake _ => False
  | _ => True

/-- These calls, with pids left and without a wait for oneself. -/
def GoodWait (kernel : Kernel) (call : Call) : Prop := Replaces call ∧ Good kernel call

theorem step_waiting (call : Call) (waiters : Waiting kernel) (permitted : Permitted kernel call)
    (good : GoodWait kernel call) : Waiting (step kernel call) := by
  obtain ⟨replaces, left, other⟩ := good
  cases call with
  | push fresh => exact pushProcess_waiting waiters permitted.2 left
  | fork caller fresh =>
    rw [step, forkProcess_eq]
    exact pushProcess_waiting waiters permitted.2.2 left
  | exec caller fresh result killFlag =>
    obtain ⟨rfl, rfl⟩ := replaces
    exact execProcess_waiting waiters permitted.1 permitted.2.2 left
  | wait caller register => exact waitProcess_waiting waiters permitted other
  | park caller register => exact replaces.elim
  | setpark caller => exact replaces.elim
  | sleep caller => exact replaces.elim
  | wake proc => exact replaces.elim
  | exit caller => exact procKillProcess_waiting waiters _
  | kill register =>
    simp only [step, sysKill]
    split
    · exact waiters
    · rename_i found
      exact procKill_waiting waiters (waiters.resolving.resolves _ _ found).1

theorem boot_waiting (boot : Boot kernel) : Waiting kernel := by
  have vacant := boot.1
  refine ⟨boot_resolving boot, fun proc lives => ?_, fun proc lives => ?_, fun proc lives => ?_⟩ <;>
    exact absurd lives (by simp [vacant])

theorem death_wakes (waiters : Waiting kernel) (holderLives : kernel.live holder = true)
    (lives : kernel.live proc = true) (recorded : Recorded kernel holder proc) :
    (procKill kernel holder).state proc = ready ∧
      (kernel.state holder = ready →
        (procKillProcess kernel (kernel.pid holder)).state proc = ready) := by
  have different : proc ≠ holder := by
    rintro rfl
    obtain ⟨index, below, holds⟩ := recorded
    exact waiters.resolving.others proc lives index below holds
  have same := unlink_same kernel holder
  have unlinked : (kill (unlink kernel holder) holder).state proc = ready := by
    refine (kill_states (unlink_waiting waiters holder) (same.live ▸ lives) different).1 ?_
    rw [Recorded, same.waitSize, same.waitList, same.pid]
    exact recorded
  refine ⟨?_, fun isReady => ?_⟩
  · rcases procKill_live waiters holderLives with killed | killed <;> rw [killed]
    · exact (kill_states waiters lives different).1 recorded
    · exact unlinked
  · unfold procKillProcess transfertToWait
    simp only [waiters.listed holder holderLives, isReady, true_or, if_true]
    exact unlinked

/-- In every run of these calls, with pids left and without a wait for oneself, a process
that waits is recorded at a live process, and the death of that process, by `kill` or by
its `exit`, makes it ready. -/
theorem waiters_recorded {kernel : Kernel} (reached : Reachable (machine GoodWait) kernel)
    (proc : Nat) (lives : kernel.live proc = true) (isWaiting : kernel.state proc = waiting) :
    ∃ holder, kernel.live holder = true ∧ Recorded kernel holder proc ∧
      (∀ register, toInt register = kernel.pid holder →
        (step kernel (.kill register)).state proc = ready) ∧
      (kernel.state holder = ready → (step kernel (.exit holder)).state proc = ready) := by
  have waiters : Waiting kernel := machine_holds (fun _ boot => boot_waiting boot)
    (fun _ call holds permitted good => step_waiting call holds permitted good) reached
  obtain ⟨holder, holderLives, recorded⟩ := waiters.recorded proc lives isWaiting
  obtain ⟨byKill, byExit⟩ := death_wakes waiters holderLives lives recorded
  refine ⟨holder, holderLives, recorded, fun register named => ?_, byExit⟩
  simp only [step, sysKill, named, waiters.listed holder holderLives]
  exact byKill

/-- A process waits for the child that it has forked. -/
def childAwaited : Kernel := run blank [.push 1, .fork 1 2, .wait 1 2]

/-- The theorem applies when process 1 waits for its child. -/
theorem waiters_recorded_after_wait :
    childAwaited.live 1 = true ∧ childAwaited.state 1 = waiting ∧
      ∃ holder, childAwaited.live holder = true ∧ Recorded childAwaited holder 1 ∧
        (∀ register, toInt register = childAwaited.pid holder →
          (step childAwaited (.kill register)).state 1 = ready) ∧
        (childAwaited.state holder = ready →
          (step childAwaited (.exit holder)).state 1 = ready) := by
  have reached : Reachable (machine GoodWait) childAwaited := by
    refine run_reachable (Reachable.initial blank_boot) ⟨⟨Nat.one_ne_zero, rfl⟩, ?_,
      ⟨rfl, by decide, rfl⟩, ?_, rfl, ?_, trivial⟩
    · exact ⟨trivial, show 0 + 1 < 2 ^ 32 by decide, trivial⟩
    · exact ⟨trivial, show 1 + 1 < 2 ^ 32 by decide, trivial⟩
    · exact ⟨trivial, trivial, show toInt 2 ≠ 1 by decide⟩
  exact ⟨by decide, by decide, waiters_recorded reached 1 (by decide) (by decide)⟩

/-- Process 1 waits for itself and is killed by its child, which then waits for it. -/
def freedAwaited : Kernel := run blank [.push 1, .fork 1 2, .wait 1 1, .kill 1, .wait 2 1]

/-- The wait of the child is recorded in the freed record only. -/
theorem waiter_lost :
    Reachable (machine (fun _ call => Replaces call)) freedAwaited ∧
      freedAwaited.live 2 = true ∧ freedAwaited.state 2 = waiting ∧
      ¬ ∃ holder, freedAwaited.live holder = true ∧ Recorded freedAwaited holder 2 := by
  refine ⟨run_reachable (Reachable.initial blank_boot) ?_, by decide, by decide, ?_⟩
  · exact ⟨⟨Nat.one_ne_zero, rfl⟩, trivial, ⟨rfl, by decide, rfl⟩, trivial, rfl, trivial, trivial,
      trivial, rfl, trivial, trivial⟩
  · rintro ⟨holder, lives, index, below, _⟩
    have alive : update (update (update (fun _ => false) 1 true) 2 true) 1 false holder = true :=
      lives
    have isChild : holder = 2 := by
      simp only [update_apply] at alive
      split_ifs at alive with first second
      exact second
    subst isChild
    exact absurd below (Nat.not_lt_zero index)

end Balrog.Waiters
