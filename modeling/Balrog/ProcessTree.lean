import Balrog.Processes

/-!
# The process tree holds live processes

A process that is killed leaves the process tree, and every record that the tree
yields is that of a live process. `__proc_kill` wakes the waiting processes before it
takes the dying one out, and skips the latter when the state is no longer `DEAD`:
`proc_transfert_to_ready` on the pid of the dying process turns `DEAD` into `RUNNING`.
So the tree keeps a freed record when a process waits for itself and is then killed.
The property holds in every run in which no process waits for itself and the pid
counter stays below 2 ^ 32.
-/

namespace Balrog.ProcessTree

open Runs Processes Function

/-- The pids of live processes are distinct, the tree yields live processes under their
own pids, no process is in its own waiting array, and the pids of killed processes are
not used any more. -/
structure Resolving (kernel : Kernel) : Prop where
  bounded : ∀ proc, kernel.live proc = true → kernel.pid proc ≠ 0 ∧
    kernel.pid proc ≤ kernel.nextPid
  distinct : ∀ first second, kernel.live first = true → kernel.live second = true →
    kernel.pid first = kernel.pid second → first = second
  resolves : ∀ pid proc, kernel.tree pid = some proc → kernel.live proc = true ∧
    kernel.pid proc = pid
  others : ∀ proc, kernel.live proc = true → ∀ index < kernel.waitSize proc,
    kernel.waitList proc index ≠ kernel.pid proc
  gone : ∀ pid ∈ kernel.killed, kernel.tree pid = none ∧ pid ≤ kernel.nextPid ∧
    ∀ proc, kernel.live proc = true → kernel.pid proc ≠ pid

variable {kernel after : Kernel} {proc caller fresh pid : Nat}

/-- States and links do not matter. -/
theorem Resolving.frame (resolving : Resolving kernel) (same : SameTable kernel after) :
    Resolving after := by
  obtain ⟨bounded, distinct, resolves, others, gone⟩ := resolving
  constructor <;>
    rw [same.pid, same.live]
  · rwa [same.nextPid]
  · exact distinct
  · rwa [same.tree]
  · rwa [same.waitSize, same.waitList]
  · rwa [same.killed, same.tree, same.nextPid]

/-- A record is found under its own pid only. -/
theorem Resolving.found (resolving : Resolving kernel) (found : kernel.tree pid = some proc) :
    kernel.tree (kernel.pid proc) = some proc := by
  rw [(resolving.resolves pid proc found).2]
  exact found

/-- Waking a process assigns its pid in the tree once more. -/
theorem transfertToReady_same (resolving : Resolving kernel) (pid expected : Nat) :
    SameTable kernel (transfertToReady kernel pid expected) := by
  unfold transfertToReady
  split
  · exact .refl kernel
  · rename_i proc found
    have inserted : SameTable kernel (insertToReadyQueue kernel proc) := by
      have same := insertToReadyQueue_same kernel proc
      rwa [update_eq_self_iff.mpr (resolving.found found).symm] at same
    have woken : SameTable kernel
        (if kernel.state proc = expected then insertToReadyQueue kernel proc else kernel) := by
      split
      · exact inserted
      · exact .refl kernel
    by_cases flagged : (if kernel.state proc = expected then insertToReadyQueue kernel proc
        else kernel).state proc &&& expected ≠ 0
    · rw [if_pos flagged]
      exact woken.trans (setState_same _ _ _)
    · rw [if_neg flagged]
      exact woken

/-- Waking a pid leaves the state of every record but that of the pid. -/
theorem transfertToReady_other {expected : Nat} (apart : kernel.tree pid ≠ some proc) :
    (transfertToReady kernel pid expected).state proc = kernel.state proc := by
  unfold transfertToReady
  split
  · rfl
  · rename_i woken found
    have different : proc ≠ woken := by
      rintro rfl
      exact apart found
    simp only
    split <;> split <;> simp [different]

section

variable (resolving : Resolving kernel)
include resolving

/-- The loop over the waiting array changes no pid. -/
theorem wakeProcess_same (proc count : Nat) :
    SameTable kernel (wakeProcess kernel proc count) := by
  induction count with
  | zero => exact .refl kernel
  | succ count ih =>
    simp only [wakeProcess]
    split
    · exact ih.trans
        (transfertToReady_same (resolving.frame ih) _ _)
    · exact ih

/-- The loop leaves a process alone that is not in the waiting array. -/
theorem wakeProcess_other {other count : Nat}
    (absent : ∀ index < count, kernel.waitList proc index ≠ kernel.pid other) :
    (wakeProcess kernel proc count).state other = kernel.state other := by
  induction count with
  | zero => rfl
  | succ count ih =>
    have earlier := ih (fun index below => absent index (Nat.lt_succ_of_lt below))
    have same := wakeProcess_same resolving proc count
    simp only [wakeProcess]
    split
    · rw [transfertToReady_other, earlier]
      rw [same.tree, same.waitList]
      intro found
      exact absent count (Nat.lt_succ_self count) (resolving.resolves _ _ found).2.symm
    · exact earlier

/-- A process that is killed is still `DEAD` after the loop, so it leaves the tree. -/
theorem kill_table (isLive : kernel.live proc = true) :
    SameTable (cleanProcess { kernel with
        tree := update kernel.tree (kernel.pid proc) none } proc) (kill kernel proc) := by
  have dying := resolving.frame (setState_same kernel proc dead)
  have same := (setState_same kernel proc dead).trans
    (wakeProcess_same dying proc (kernel.waitSize proc))
  have isDead : (wakeProcess (setState kernel proc dead) proc (kernel.waitSize proc)).state proc =
      dead := by
    rw [wakeProcess_other dying (resolving.others proc isLive)]
    simp
  rw [kill_eq, removeProcess, if_pos (.inl isDead)]
  constructor <;> simp only [cleanProcess, same.pid, same.live, same.tree, same.waitSize,
    same.waitList, same.nextPid, same.killed]

/-- A kill keeps every pid in the tree on its own process. -/
theorem kill_resolving (isLive : kernel.live proc = true) :
    Resolving (kill kernel proc) := by
  refine Resolving.frame ?_ (kill_table resolving isLive)
  have alive {other : Nat} (lives : update kernel.live proc false other = true) :
      other ≠ proc ∧ kernel.live other = true := by
    rw [update_apply] at lives
    split_ifs at lives with same
    exact ⟨same, lives⟩
  constructor
  · exact fun other lives => resolving.bounded other (alive lives).2
  · exact fun first second firstLives secondLives =>
      resolving.distinct first second (alive firstLives).2 (alive secondLives).2
  · intro pid other found
    simp only [cleanProcess, update_apply] at found ⊢
    split_ifs at found with same
    obtain ⟨lives, named⟩ := resolving.resolves pid other found
    have different : other ≠ proc := by
      rintro rfl
      exact same named.symm
    simp [different, lives, named]
  · exact fun other lives => resolving.others other (alive lives).2
  · intro pid listed
    simp only [cleanProcess, List.mem_cons, update_apply] at listed ⊢
    have unused (other : Nat) (lives : update kernel.live proc false other = true) :
        kernel.pid other ≠ kernel.pid proc := by
      intro same
      exact (alive lives).1 (resolving.distinct other proc (alive lives).2 isLive same)
    rcases listed with rfl | earlier
    · refine ⟨if_pos rfl, (resolving.bounded proc isLive).2, fun other lives => ?_⟩
      exact unused other (by rwa [update_apply])
    · obtain ⟨absent, below, free⟩ := resolving.gone pid earlier
      refine ⟨by simp [absent], below, fun other lives => free other ?_⟩
      exact (alive (by rwa [update_apply])).2

theorem procKill_resolving (isLive : kernel.live proc = true) :
    Resolving (procKill kernel proc) := by
  have unlinked := resolving.frame (unlink_same kernel proc)
  rcases procKill_eq kernel proc with same | same | same <;> rw [same]
  · exact resolving
  · exact kill_resolving resolving isLive
  · exact kill_resolving unlinked (by rwa [(unlink_same kernel proc).live])

theorem procKillProcess_resolving (pid : Nat) :
    Resolving (procKillProcess kernel pid) := by
  rcases procKillProcess_eq kernel pid with same | ⟨proc, found, same⟩ <;> rw [same]
  · exact resolving
  · refine kill_resolving (resolving.frame (unlink_same kernel proc)) ?_
    rw [(unlink_same kernel proc).live]
    exact (resolving.resolves pid proc found).1

theorem Resolving.erase (pid : Nat) :
    Resolving { kernel with tree := update kernel.tree pid none } := by
  obtain ⟨bounded, distinct, resolves, others, gone⟩ := resolving
  refine ⟨bounded, distinct, fun other proc found => ?_, others, fun other listed => ?_⟩
  · simp only [update_apply] at found
    split_ifs at found
    exact resolves other proc found
  · obtain ⟨absent, below, unused⟩ := gone other listed
    exact ⟨by simp [update_apply, absent], below, unused⟩

/-- So does the creation of a process. -/
theorem newProcess_resolving (free : kernel.live fresh = false)
    (left : kernel.nextPid + 1 < 2 ^ 32) : Resolving (newProcess kernel fresh) := by
  have apart {proc : Nat} (lives : kernel.live proc = true) : proc ≠ fresh := ne_of_live lives free
  constructor <;> simp only [newProcess, (newProcess_pid left).1]
  · intro proc lives
    obtain ⟨nonzero, below⟩ := resolving.bounded proc lives
    rw [update_of_ne (apart lives)]
    exact ⟨nonzero, Nat.le_succ_of_le below⟩
  · intro first second firstLives secondLives
    rw [update_of_ne (apart firstLives), update_of_ne (apart secondLives)]
    exact resolving.distinct first second firstLives secondLives
  · intro pid proc found
    obtain ⟨lives, named⟩ := resolving.resolves pid proc found
    rw [update_of_ne (apart lives)]
    exact ⟨lives, named⟩
  · intro proc lives
    rw [update_of_ne (apart lives), update_of_ne (apart lives), update_of_ne (apart lives)]
    exact resolving.others proc lives
  · intro pid listed
    obtain ⟨absent, below, unused⟩ := resolving.gone pid listed
    refine ⟨absent, Nat.le_succ_of_le below, fun proc lives => ?_⟩
    rw [update_of_ne (apart lives)]
    exact unused proc lives

end

/-- A process enters the tree under a pid that no live or killed process has. What the
tree held for that pid is overwritten. -/
theorem start_resolving
    (resolving : Resolving { kernel with tree := update kernel.tree (kernel.pid fresh) none })
    (named : kernel.pid fresh ≠ 0 ∧ kernel.pid fresh ≤ kernel.nextPid)
    (unused : ∀ proc, kernel.live proc = true → kernel.pid proc ≠ kernel.pid fresh)
    (unkilled : kernel.pid fresh ∉ kernel.killed)
    (others : ∀ index < kernel.waitSize fresh, kernel.waitList fresh index ≠ kernel.pid fresh) :
    Resolving (start kernel fresh) := by
  refine Resolving.frame ?_ (insertToReadyQueue_same _ fresh)
  have alive {proc : Nat} (lives : update kernel.live fresh true proc = true) :
      proc = fresh ∨ (proc ≠ fresh ∧ kernel.live proc = true) := by
    rw [update_apply] at lives
    split_ifs at lives with same
    · exact .inl same
    · exact .inr ⟨same, lives⟩
  constructor <;> simp only
  · intro proc lives
    rcases alive lives with rfl | ⟨_, lived⟩
    · exact named
    · exact resolving.bounded proc lived
  · intro first second firstLives secondLives same
    rcases alive firstLives with rfl | ⟨_, firstLived⟩ <;>
      rcases alive secondLives with rfl | ⟨_, secondLived⟩
    · rfl
    · exact absurd same.symm (unused second secondLived)
    · exact absurd same (unused first firstLived)
    · exact resolving.distinct first second firstLived secondLived same
  · intro pid proc found
    rw [update_apply] at found
    split_ifs at found with same
    · obtain rfl := Option.some.inj found
      exact ⟨update_self fresh true kernel.live, same.symm⟩
    · have before := resolving.resolves pid proc
      simp only [update_of_ne same] at before
      obtain ⟨lived, isPid⟩ := before found
      refine ⟨?_, isPid⟩
      rw [update_apply]
      split_ifs
      · rfl
      · exact lived
  · intro proc lives
    rcases alive lives with rfl | ⟨_, lived⟩
    · exact others
    · exact resolving.others proc lived
  · intro pid listed
    have different : pid ≠ kernel.pid fresh := by
      rintro rfl
      exact unkilled listed
    have before := resolving.gone pid listed
    simp only [update_of_ne different] at before ⊢
    refine ⟨before.1, before.2.1, fun proc lives => ?_⟩
    rcases alive lives with rfl | ⟨_, lived⟩
    · exact different.symm
    · exact before.2.2 proc lived

section

variable (resolving : Resolving kernel)
include resolving

/-- The pid after the last one that was given is new. -/
theorem Resolving.next_unused :
    (∀ proc, kernel.live proc = true → kernel.pid proc ≠ kernel.nextPid + 1) ∧
      kernel.nextPid + 1 ∉ kernel.killed := by
  refine ⟨fun proc lives same => ?_, fun listed => ?_⟩
  · have below := (resolving.bounded proc lives).2
    omega
  · have below := (resolving.gone _ listed).2.1
    omega

/-- So does pushing a process. -/
theorem pushProcess_resolving (free : kernel.live fresh = false)
    (left : kernel.nextPid + 1 < 2 ^ 32) : Resolving (pushProcess kernel fresh) := by
  have given : (newProcess kernel fresh).pid fresh = kernel.nextPid + 1 :=
    (update_self fresh _ kernel.pid).trans (newProcess_pid left).2
  have counted : (newProcess kernel fresh).nextPid = kernel.nextPid + 1 := (newProcess_pid left).1
  obtain ⟨unused, unkilled⟩ := resolving.next_unused
  refine start_resolving ((newProcess_resolving resolving free left).erase _) ?_ ?_ ?_ ?_
  · rw [given, counted]
    omega
  · intro proc lives
    have apart : proc ≠ fresh := ne_of_live lives free
    rw [given]
    simpa [newProcess, apart] using unused proc lives
  · rw [given]
    exact unkilled
  · intro index below
    simp [newProcess] at below

section

variable (isLive : kernel.live caller = true)
include isLive

/-- The new process gets the pids that wait for the caller. -/
theorem moveWaiting_resolving (free : kernel.live fresh = false) :
    Resolving (moveWaiting kernel caller fresh) := by
  unfold moveWaiting
  split
  · obtain ⟨bounded, distinct, resolves, others, gone⟩ := resolving
    refine ⟨bounded, distinct, resolves, fun proc lives => ?_, gone⟩
    have apart : proc ≠ fresh := ne_of_live lives free
    by_cases same : proc = caller
    · subst same
      simp
    · simp only [update_of_ne same, update_of_ne apart]
      exact others proc lives
  · exact resolving

/-- The caller has no waiting pids left, and those of the new process are not the
caller's. -/
theorem moveWaiting_spec (apart : fresh ≠ caller) (vacant : kernel.waitSize fresh = 0) :
    (moveWaiting kernel caller fresh).waitSize caller = 0 ∧
      ∀ index < (moveWaiting kernel caller fresh).waitSize fresh,
        (moveWaiting kernel caller fresh).waitList fresh index ≠ kernel.pid caller := by
  unfold moveWaiting
  split
  · simp only [update_self, update_of_ne apart, true_and]
    exact resolving.others caller isLive
  · rename_i none
    exact ⟨not_not.mp none, fun index below => absurd below (by omega)⟩

section

variable (free : kernel.live fresh = false)
  (named : kernel.pid fresh ≠ 0 ∧ kernel.pid fresh ≤ kernel.nextPid)
  (unused : ∀ proc, kernel.live proc = true → kernel.pid proc ≠ kernel.pid fresh)
  (unkilled : kernel.pid fresh ∉ kernel.killed) (vacant : kernel.waitSize caller = 0)
include free named unused unkilled vacant

/-- The caller takes a new pid, and its old one is about to be given away. -/
theorem swap_resolving :
    Resolving { kernel with
      pid := update (update kernel.pid fresh (kernel.pid caller)) caller (kernel.pid fresh)
      tree := update kernel.tree (kernel.pid caller) none } := by
  have kept {proc : Nat} (lives : kernel.live proc = true) (other : proc ≠ caller) :
      update (update kernel.pid fresh (kernel.pid caller)) caller (kernel.pid fresh) proc =
        kernel.pid proc := by
    rw [update_of_ne other, update_of_ne (ne_of_live lives free)]
  have cases {proc : Nat} (lives : kernel.live proc = true) : (proc = caller ∧
      update (update kernel.pid fresh (kernel.pid caller)) caller (kernel.pid fresh) proc =
        kernel.pid fresh) ∨ (proc ≠ caller ∧
      update (update kernel.pid fresh (kernel.pid caller)) caller (kernel.pid fresh) proc =
        kernel.pid proc) := by
    by_cases same : proc = caller
    · subst same
      exact .inl ⟨rfl, update_self ..⟩
    · exact .inr ⟨same, kept lives same⟩
  constructor <;> simp only
  · intro proc lives
    rcases cases lives with ⟨_, value⟩ | ⟨_, value⟩ <;> rw [value]
    · exact named
    · exact resolving.bounded proc lives
  · intro first second firstLives secondLives
    rcases cases firstLives with ⟨rfl, value⟩ | ⟨_, value⟩ <;>
      rcases cases secondLives with ⟨same, value'⟩ | ⟨_, value'⟩ <;> rw [value, value']
    · exact fun _ => same.symm
    · exact fun equal => absurd equal.symm (unused second secondLives)
    · exact fun equal => absurd equal (unused first firstLives)
    · exact resolving.distinct first second firstLives secondLives
  · intro pid proc found
    rw [update_apply] at found
    split_ifs at found with same
    obtain ⟨lives, isPid⟩ := resolving.resolves pid proc found
    refine ⟨lives, ?_⟩
    rw [kept lives, isPid]
    rintro rfl
    exact same isPid.symm
  · intro proc lives index below
    rcases cases lives with ⟨rfl, _⟩ | ⟨_, value⟩
    · omega
    · rw [value]
      exact resolving.others proc lives index below
  · intro pid listed
    obtain ⟨absent, below, free⟩ := resolving.gone pid listed
    refine ⟨by simp [update_apply, absent], below, fun proc lives => ?_⟩
    rcases cases lives with ⟨_, value⟩ | ⟨_, value⟩ <;> rw [value]
    · rintro rfl
      exact unkilled listed
    · exact free proc lives

/-- The new process takes the place of the caller in the tree. -/
theorem replaceCaller_resolving
    (others : ∀ index < kernel.waitSize fresh, kernel.waitList fresh index ≠ kernel.pid caller) :
    Resolving (replaceCaller kernel caller fresh) := by
  have apart : fresh ≠ caller := (ne_of_live isLive free).symm
  have same := transfertToWaiting_same kernel (kernel.pid caller)
  have swapped := swap_resolving resolving isLive free named unused unkilled vacant
  unfold replaceCaller
  simp only [same.pid]
  have pidOf : update (update kernel.pid fresh (kernel.pid caller)) caller (kernel.pid fresh) fresh =
      kernel.pid caller := by
    rw [update_of_ne apart, update_self]
  refine start_resolving (swapped.frame ?_) ?_ ?_ ?_ ?_
  · constructor <;> simp [setState, same.live, same.tree, same.waitSize, same.waitList,
      same.nextPid, same.killed, apart]
  · simp only [setState, pidOf, same.nextPid]
    exact resolving.bounded caller isLive
  · simp only [setState, pidOf, same.live]
    intro proc lives
    by_cases isCaller : proc = caller
    · subst isCaller
      rw [update_self]
      exact (unused proc lives).symm
    · rw [update_of_ne isCaller, update_of_ne (ne_of_live lives free)]
      exact fun equal => isCaller (resolving.distinct proc caller lives isLive equal)
  · simp only [setState, pidOf, same.killed]
    intro listed
    exact (resolving.gone _ listed).2.2 caller isLive rfl
  · simp only [setState, pidOf, same.waitSize, same.waitList]
    exact others

end

theorem replaced_resolving (free : kernel.live fresh = false)
    (left : kernel.nextPid + 1 < 2 ^ 32) :
    Resolving (replaceCaller (moveWaiting (newProcess kernel fresh) caller fresh) caller fresh) := by
  have apart : fresh ≠ caller := (ne_of_live isLive free).symm
  have created := newProcess_resolving resolving free left
  have moved := moveWaiting_resolving created isLive free
  obtain ⟨vacant, others⟩ := moveWaiting_spec created isLive apart (update_self ..)
  obtain ⟨unused, unkilled⟩ := resolving.next_unused
  obtain ⟨pids, lives, _, _, counter, kills⟩ := @moveWaiting_table caller fresh _ _ left rfl
  have freshPid : update kernel.pid fresh (kernel.nextPid + 1) fresh = kernel.nextPid + 1 :=
    update_self ..
  refine replaceCaller_resolving moved (by rwa [lives]) (by rwa [lives]) ?_ ?_ ?_ vacant ?_
  · rw [pids, counter, freshPid]
    omega
  · rw [pids, lives, freshPid]
    intro proc isProc
    rw [update_of_ne (ne_of_live isProc free)]
    exact unused proc isProc
  · rw [pids, kills, freshPid]
    exact unkilled
  · have created : (newProcess kernel fresh).pid = update kernel.pid fresh (kernel.nextPid + 1) :=
      congrArg (update kernel.pid fresh) (newProcess_pid left).2
    rw [created] at others
    rw [pids]
    exact others

end

end

/-- The caller of `exec_process` is live until it is killed. -/
theorem replaceCaller_live (kernel : Kernel) (caller fresh : Nat) :
    (replaceCaller kernel caller fresh).live = update kernel.live fresh true := by
  unfold replaceCaller start
  rw [(insertToReadyQueue_same _ _).live]
  simp [setState, (transfertToWaiting_same kernel (kernel.pid caller)).live]

/-- So does an `exec`, wherever it fails. -/
theorem execProcess_resolving (resolving : Resolving kernel) (isLive : kernel.live caller = true)
    (free : kernel.live fresh = false) (left : kernel.nextPid + 1 < 2 ^ 32)
    (result : ExecResult) (killFlag : Nat) :
    Resolving (execProcess kernel caller fresh result killFlag) := by
  have replaced := replaced_resolving resolving isLive free left
  cases result with
  | noUser => exact newProcess_resolving resolving free left
  | noArguments => exact replaced
  | done =>
    simp only [execProcess]
    split
    · refine procKill_resolving replaced ?_
      rw [replaceCaller_live, update_apply]
      split
      · rfl
      · unfold moveWaiting
        split <;> exact isLive
    · exact replaced

theorem appendWaiting_resolving (resolving : Resolving kernel) (other : pid ≠ kernel.pid proc) :
    Resolving (appendWaiting kernel proc pid) := by
  obtain ⟨bounded, distinct, resolves, others, gone⟩ := resolving
  refine ⟨bounded, distinct, resolves, fun process lives index below => ?_, gone⟩
  simp only [appendWaiting, update_apply] at below ⊢
  by_cases same : process = proc
  · subst same
    simp only [if_true] at below ⊢
    by_cases last : index = kernel.waitSize process
    · rw [update_apply, if_pos last]
      exact other
    · rw [update_of_ne last]
      exact others process lives index (by omega)
  · simp only [if_neg same] at below ⊢
    exact others process lives index below

/-- So does a wait for another process. -/
theorem waitProcess_resolving (resolving : Resolving kernel) {target : Nat}
    (other : target ≠ kernel.pid caller) : Resolving (waitProcess kernel caller target) := by
  rcases waitProcess_eq kernel caller target with same | ⟨holder, found, same⟩ <;> rw [same]
  · exact resolving
  · refine Resolving.frame (appendWaiting_resolving resolving ?_) (procToSleep_same _ _ _)
    rw [(resolving.resolves target holder found).2]
    exact other.symm

/-- The condition on the calls: pids are left and no process waits for itself. -/
def Good (kernel : Kernel) (call : Call) : Prop := PidsLeft kernel call ∧ WaitsForOther kernel call

/-- Every call keeps every pid in the tree on its own process. -/
theorem step_resolving (call : Call) (resolving : Resolving kernel)
    (permitted : Permitted kernel call) (good : Good kernel call) :
    Resolving (step kernel call) := by
  cases call with
  | push fresh => exact pushProcess_resolving resolving permitted.2 good.1
  | fork caller fresh =>
    rw [step, forkProcess_eq]
    exact pushProcess_resolving resolving permitted.2.2 good.1
  | exec caller fresh result killFlag =>
    exact execProcess_resolving resolving permitted.1 permitted.2.2 good.1 result killFlag
  | wait caller register => exact waitProcess_resolving resolving good.2
  | park caller register =>
    simp only [step, sysPark]
    split
    · have unmarked : Resolving { kernel with aboutToPark := 0 } :=
        resolving.frame ⟨rfl, rfl, rfl, rfl, rfl, rfl, rfl⟩
      exact unmarked.frame (transfertToReady_same unmarked _ _)
    · split
      · exact resolving.frame (procToSleep_same _ _ _)
      · exact resolving
  | setpark caller => exact resolving.frame ⟨rfl, rfl, rfl, rfl, rfl, rfl, rfl⟩
  | sleep caller => exact resolving.frame (procToSleep_same _ _ _)
  | wake proc =>
    simp only [step, wakeSleeper]
    split
    · split
      · exact resolving.frame (transfertToReady_same resolving _ _)
      · exact resolving.frame (setState_same _ _ _)
    · exact resolving
  | exit caller => exact procKillProcess_resolving resolving _
  | kill register =>
    simp only [step, sysKill]
    split
    · exact resolving
    · rename_i found
      exact procKill_resolving resolving (resolving.resolves _ _ found).1

theorem boot_resolving (boot : Boot kernel) : Resolving kernel := by
  obtain ⟨vacant, absent, _, _, _, _, _, unkilled⟩ := boot
  constructor
  · exact fun proc lives => absurd lives (by simp [vacant])
  · exact fun first _ lives => absurd lives (by simp [vacant])
  · exact fun pid _ found => absurd found (by simp [absent])
  · exact fun proc lives => absurd lives (by simp [vacant])
  · exact fun pid listed => absurd listed (by simp [unkilled])

/-- In every run in which pids are left for new processes and no process waits for
itself, the pid of a killed process does not resolve, and every record that
`proc_get_process` returns belongs to a process that has not been cleaned up. -/
theorem process_tree_live {kernel : Kernel} (reached : Reachable (machine Good) kernel) :
    (∀ pid ∈ kernel.killed, kernel.tree pid = none) ∧
      ∀ pid proc, kernel.tree pid = some proc → kernel.live proc = true := by
  have resolving : Resolving kernel := machine_holds (fun _ boot => boot_resolving boot)
    (fun _ call holds permitted good => step_resolving call holds permitted good) reached
  exact ⟨fun pid listed => (resolving.gone pid listed).1,
    fun pid proc found => (resolving.resolves pid proc found).1⟩

/-- The first process has exited. -/
def exited : Kernel := run blank [.push 1, .exit 1]

/-- The theorem applies after a process was started and exited. -/
theorem process_tree_live_after_exit :
    Reachable (machine Good) exited ∧ 1 ∈ exited.killed ∧ exited.tree 1 = none := by
  have reached : Reachable (machine Good) exited := by
    refine run_reachable (Reachable.initial blank_boot) ⟨⟨Nat.one_ne_zero, rfl⟩, ?_, rfl, ?_, trivial⟩
    · exact ⟨show 0 + 1 < 2 ^ 32 by decide, trivial⟩
    · exact ⟨trivial, trivial⟩
  have listed : 1 ∈ exited.killed := by decide
  exact ⟨reached, listed, (process_tree_live reached).1 1 listed⟩

/-- Process 1 forks process 2, waits for itself and is killed. -/
def selfWaiterKilled : Kernel := run blank [.push 1, .fork 1 2, .wait 1 1, .kill 1]

/-- The record of a process that waited for itself is freed, and its pid still resolves
to it. -/
theorem self_waiter_stays :
    Reachable (machine (fun _ _ => True)) selfWaiterKilled ∧ 1 ∈ selfWaiterKilled.killed ∧
      selfWaiterKilled.tree 1 = some 1 ∧ selfWaiterKilled.live 1 = false := by
  refine ⟨run_reachable (Reachable.initial blank_boot) ?_, by decide, by decide, by decide⟩
  exact ⟨⟨Nat.one_ne_zero, rfl⟩, trivial, ⟨rfl, by decide, rfl⟩, trivial, rfl, trivial, trivial,
    trivial, trivial⟩

end Balrog.ProcessTree
