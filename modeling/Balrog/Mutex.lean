import Balrog.Runs
import Mathlib.Algebra.Group.Nat.Defs

/-!
# The parking mutex

`kmutex_lock`/`kmutex_unlock` and `pthread_mutex_lock`/`pthread_mutex_unlock` are the
same program over two queue implementations, both first in first out. A guard is
taken by spinning on `xchg`, the flag is tested and set under the guard, and a
process that finds the flag set queues itself, announces that it is about to park,
releases the guard and parks. The marker of who is about to park is one variable of
the kernel for all mutexes.

`xchg` is `xchgq`: it exchanges eight bytes. The guard is an `int` of four bytes and
the flag is the byte behind it, so both, with the three bytes of padding, are the one
word that an exchange of the guard replaces.

Every line of the source that touches shared memory is a step of its own, so a run is
an arbitrary interleaving. Allocation of queue nodes succeeds. The unused `count`
field is left out.

Taking the guard writes a one into the whole word, so the flag is clear whenever it is
tested: in no run does a process queue itself or park, and whoever calls lock while
another process is inside comes inside as well.
-/

namespace Balrog.Mutex

open Runs

/-- The eight bytes at the guard, and the queue of waiting processes. -/
structure Lock where
  word : Nat
  waitQueue : List Nat

/-- The flag byte behind the four bytes of the guard. -/
def flag (word : Nat) : Nat := word / 2 ^ 32 % 2 ^ 8

/-- The lock's word after its flag byte has been stored. -/
def setFlag (word value : Nat) : Nat :=
  word % 2 ^ 32 + value % 2 ^ 8 * 2 ^ 32 + word / 2 ^ 40 * 2 ^ 40

/-- The next step of a process. -/
inductive Pc where
  | idle
  | lockSpin (lock : Nat)
  | lockTest (lock : Nat)
  | lockSetFlag (lock : Nat)
  | lockRelease (lock : Nat)
  | lockEnqueue (lock : Nat)
  | lockSetpark (lock : Nat)
  | lockReleaseToPark (lock : Nat)
  | lockPark (lock : Nat)
  | lockReturn (lock : Nat)
  | unlockSpin (lock : Nat)
  | unlockTest (lock : Nat)
  | unlockClearFlag (lock : Nat)
  | unlockRemove (lock : Nat)
  | unlockUnpark (lock pid : Nat)
  | unlockRelease (lock : Nat)
deriving DecidableEq, Repr

/-- A process: its next step, the mutexes it is past the lock and before the unlock
of, and whether it is waiting. -/
structure Process where
  pc : Pc
  held : List Nat
  waiting : Bool

/-- The mutexes, the processes by pid, and the marker of `setpark`. -/
structure System where
  locks : Nat → Lock
  processes : Nat → Process
  aboutToPark : Nat

/-- The system with another value for one lock. -/
def System.setLock (system : System) (lock : Nat) (value : Lock) : System :=
  { system with locks := fun probe => if probe = lock then value else system.locks probe }

/-- The system with another state of one process. -/
def System.setProcess (system : System) (pid : Nat) (value : Process) : System :=
  { system with
    processes := fun probe => if probe = pid then value else system.processes probe }

/-- `xchg` on the guard of a mutex: the new word, and whether the old one was zero. -/
def System.exchange (system : System) (lock value : Nat) : System :=
  system.setLock lock { system.locks lock with word := value }

/-- Move a process to its next step. -/
def System.goto (system : System) (pid : Nat) (pc : Pc) : System :=
  system.setProcess pid { system.processes pid with pc := pc }

/-- The process has got the lock and returns to its code. -/
def System.enter (system : System) (pid lock : Nat) : System :=
  system.setProcess pid
    { system.processes pid with pc := .idle, held := lock :: (system.processes pid).held }

/-- `sys_park`: with a pid, take the marker back and make the process ready; without
one, wait if the marker is still there. -/
def sysPark (system : System) (current pid : Nat) : System :=
  if pid ≠ 0 then
    { system with aboutToPark := 0 }.setProcess pid
      { system.processes pid with waiting := false }
  else if system.aboutToPark = current then
    system.setProcess current { system.processes current with waiting := true }
  else system

/-- One step of a process, by where it stands in `lock` or `unlock`. -/
def advance (system : System) (pid : Nat) : System :=
  match (system.processes pid).pc with
  | .idle => system
  | .lockSpin lock =>
    if (system.locks lock).word ≠ 0 then system.exchange lock 1
    else (system.exchange lock 1).goto pid (.lockTest lock)
  | .lockTest lock =>
    if flag (system.locks lock).word = 0 then system.goto pid (.lockSetFlag lock)
    else system.goto pid (.lockEnqueue lock)
  | .lockSetFlag lock =>
    (system.exchange lock (setFlag (system.locks lock).word 1)).goto pid (.lockRelease lock)
  | .lockRelease lock => (system.exchange lock 0).enter pid lock
  | .lockEnqueue lock =>
    (system.setLock lock
      { system.locks lock with waitQueue := (system.locks lock).waitQueue ++ [pid] }).goto pid
        (.lockSetpark lock)
  | .lockSetpark lock => { system with aboutToPark := pid }.goto pid (.lockReleaseToPark lock)
  | .lockReleaseToPark lock => (system.exchange lock 0).goto pid (.lockPark lock)
  | .lockPark lock => (sysPark system pid 0).goto pid (.lockReturn lock)
  | .lockReturn lock => system.enter pid lock
  | .unlockSpin lock =>
    if (system.locks lock).word ≠ 0 then system.exchange lock 1
    else (system.exchange lock 1).goto pid (.unlockTest lock)
  | .unlockTest lock =>
    if (system.locks lock).waitQueue = [] then system.goto pid (.unlockClearFlag lock)
    else system.goto pid (.unlockRemove lock)
  | .unlockClearFlag lock =>
    (system.exchange lock (setFlag (system.locks lock).word 0)).goto pid (.unlockRelease lock)
  | .unlockRemove lock =>
    (system.setLock lock
      { system.locks lock with waitQueue := (system.locks lock).waitQueue.tail }).goto pid
        (.unlockUnpark lock ((system.locks lock).waitQueue.headD 0))
  | .unlockUnpark lock target => (sysPark system pid target).goto pid (.unlockRelease lock)
  | .unlockRelease lock => (system.exchange lock 0).goto pid .idle

/-- What can happen next. -/
inductive Call where
  | lock (pid lock : Nat)
  | unlock (pid lock : Nat)
  | advance (pid : Nat)

/-- A process begins a call or takes a step of the one it is in. -/
def step (system : System) : Call → Option System
  | .lock pid lock => some (system.goto pid (.lockSpin lock))
  | .unlock pid lock =>
    some (system.setProcess pid
      { system.processes pid with
        pc := .unlockSpin lock
        held := (system.processes pid).held.filter (· ≠ lock) })
  | .advance pid => some (advance system pid)

/-- A process calls one function at a time and unlocks what it holds; a waiting
process does not run. -/
def allowed (system : System) : Call → Prop
  | .lock pid _ => (system.processes pid).pc = .idle
  | .unlock pid lock => (system.processes pid).pc = .idle ∧ lock ∈ (system.processes pid).held
  | .advance pid => (system.processes pid).waiting = false

/-- Mutexes as they are initialised, and processes that hold none. -/
def start : System :=
  { locks := fun _ => { word := 0, waitQueue := [] }
    processes := fun _ => { pc := .idle, held := [], waiting := false }
    aboutToPark := 0 }

/-- The runs from initialised mutexes. -/
def machine : Machine System Call where
  initial system := system = start
  allowed := allowed
  step := step

/-- At most one process is past the lock and before the unlock of a mutex. -/
def Exclusive (system : System) : Prop :=
  ∀ lock first second, lock ∈ (system.processes first).held →
    lock ∈ (system.processes second).held → first = second

/-- The mutex whose guard the process has at a step. -/
def Pc.guarded : Pc → Option Nat
  | .lockTest lock => some lock
  | .lockSetFlag lock => some lock
  | .lockRelease lock => some lock
  | .unlockTest lock => some lock
  | .unlockClearFlag lock => some lock
  | .unlockRelease lock => some lock
  | _ => none

/-- The steps of waiting and of waking a waiter. -/
def Pc.parks : Pc → Bool
  | .lockEnqueue _ => true
  | .lockSetpark _ => true
  | .lockReleaseToPark _ => true
  | .lockPark _ => true
  | .lockReturn _ => true
  | .unlockRemove _ => true
  | .unlockUnpark _ _ => true
  | _ => false

variable {lock pid value other marker : Nat}

/-- The guard is a working spin lock, the flag is clear whenever it is tested, and so
nobody ever waits. -/
structure Invariant (system : System) : Prop where
  taken : ∀ pid lock, (system.processes pid).pc.guarded = some lock →
    (system.locks lock).word % 2 ^ 32 = 1
  single : ∀ first second lock, (system.processes first).pc.guarded = some lock →
    (system.processes second).pc.guarded = some lock → first = second
  tested : ∀ pid lock, (system.processes pid).pc = .lockTest lock → (system.locks lock).word = 1
  nobody : ∀ lock, (system.locks lock).waitQueue = []
  never : ∀ pid, (system.processes pid).pc.parks = false
  awake : ∀ pid, (system.processes pid).waiting = false

section Steps

variable {system : System}

section

variable (invariant : Invariant system)
include invariant

/-- A step of one process that also rewrites the words of mutexes. -/
theorem invariant_moves {locks : Nat → Lock} {process : Process}
    (nobody : ∀ lock, (locks lock).waitQueue = []) (never : process.pc.parks = false)
    (awake : process.waiting = false)
    (others : ∀ other, other ≠ pid → ∀ lock,
      (system.processes other).pc.guarded = some lock → (locks lock).word = 1 ∨
        (locks lock).word = (system.locks lock).word)
    (mine : ∀ lock, process.pc.guarded = some lock → (locks lock).word % 2 ^ 32 = 1 ∧
      ∀ other, other ≠ pid → (system.processes other).pc.guarded ≠ some lock)
    (tested : ∀ lock, process.pc = .lockTest lock → (locks lock).word = 1) :
    Invariant { locks := locks,
                processes := fun probe => if probe = pid then process else system.processes probe,
                aboutToPark := marker } := by
  refine ⟨?_, ?_, ?_, nobody, ?_, ?_⟩
  · intro probe lock guarded
    simp only at guarded
    split at guarded
    · exact (mine lock guarded).1
    · next different =>
      rcases others probe different lock guarded with one | same
      · simp [one]
      · simpa [same] using invariant.taken probe lock guarded
  · intro first second lock firstGuarded secondGuarded
    simp only at firstGuarded secondGuarded
    split at firstGuarded <;> split at secondGuarded
    · next firstIs secondIs => rw [firstIs, secondIs]
    · next different => exact absurd secondGuarded ((mine lock firstGuarded).2 _ different)
    · next different _ => exact absurd firstGuarded ((mine lock secondGuarded).2 _ different)
    · exact invariant.single first second lock firstGuarded secondGuarded
  · intro probe lock atTest
    simp only at atTest
    split at atTest
    · exact tested lock atTest
    · next different =>
      rcases others probe different lock (by rw [atTest]; rfl) with one | same
      · exact one
      · exact same.trans (invariant.tested probe lock atTest)
  · intro probe
    simp only
    split
    · exact never
    · exact invariant.never probe
  · intro probe
    simp only
    split
    · exact awake
    · exact invariant.awake probe

theorem exchange_nobody (probe : Nat) :
    ((system.exchange lock value).locks probe).waitQueue = [] := by
  simp only [System.exchange, System.setLock]
  split
  · exact invariant.nobody lock
  · exact invariant.nobody probe

theorem guard_apart (guarded : (system.processes pid).pc.guarded = some lock)
    (different : other ≠ pid) : (system.processes other).pc.guarded ≠ some lock :=
  fun also => different (invariant.single other pid lock also guarded)

variable {process : Process}

/-- A step that rewrites the word of a mutex whose guard the process has, and keeps
to itself. -/
theorem guarded_moves (guarded : (system.processes pid).pc.guarded = some lock)
    (never : process.pc.parks = false) (awake : process.waiting = false)
    (mine : process.pc.guarded = none ∨ (process.pc.guarded = some lock ∧ value % 2 ^ 32 = 1))
    (tested : ∀ lock, process.pc ≠ .lockTest lock) :
    Invariant ((system.exchange lock value).setProcess pid process) := by
  refine invariant_moves invariant (exchange_nobody invariant) never awake ?_ ?_ ?_
  · intro other different probe otherGuarded
    refine .inr ?_
    simp only [System.exchange, System.setLock]
    rw [if_neg]
    rintro rfl
    exact guard_apart invariant guarded different otherGuarded
  · intro probe isGuarded
    rcases mine with free | ⟨same, low⟩
    · rw [free] at isGuarded
      cases isGuarded
    · obtain rfl : lock = probe := Option.some.inj (same.symm.trans isGuarded)
      refine ⟨?_, fun other different => guard_apart invariant guarded different⟩
      simpa [System.exchange, System.setLock] using low
  · exact fun probe isTest => absurd isTest (tested probe)

/-- A step that only changes the process, which gains no guard. -/
theorem private_moves (never : process.pc.parks = false) (awake : process.waiting = false)
    (mine : ∀ lock, process.pc.guarded = some lock →
      (system.processes pid).pc.guarded = some lock)
    (tested : ∀ lock, process.pc ≠ .lockTest lock) :
    Invariant (system.setProcess pid process) := by
  refine invariant_moves invariant invariant.nobody never awake
    (fun _ _ _ _ => .inr rfl) ?_ (fun probe isTest => absurd isTest (tested probe))
  exact fun probe isGuarded => ⟨invariant.taken pid probe (mine probe isGuarded),
    fun other different => guard_apart invariant (mine probe isGuarded) different⟩

/-- A failed attempt at a guard writes a one over a taken guard. -/
theorem spin_again (lock : Nat) :
    Invariant (system.exchange lock 1) := by
  refine ⟨?_, invariant.single, ?_, exchange_nobody invariant, invariant.never, invariant.awake⟩
  · intro pid probe guarded
    simp only [System.exchange, System.setLock]
    split
    · rfl
    · exact invariant.taken pid probe guarded
  · intro pid probe atTest
    simp only [System.exchange, System.setLock]
    split
    · rfl
    · exact invariant.tested pid probe atTest

/-- Nobody has the guard of a mutex whose word is zero. -/
theorem free_guard (free : (system.locks lock).word = 0) (pid : Nat) :
    (system.processes pid).pc.guarded ≠ some lock := by
  intro guarded
  have taken := invariant.taken pid lock guarded
  rw [free] at taken
  cases taken

/-- A free guard is taken, and the flag is cleared with it. -/
theorem spin_takes (free : (system.locks lock).word = 0) (never : process.pc.parks = false)
    (awake : process.waiting = false) (guarded : process.pc.guarded = some lock) :
    Invariant ((system.exchange lock 1).setProcess pid process) := by
  refine invariant_moves invariant (exchange_nobody invariant) never awake ?_ ?_ ?_
  · intro other _ probe otherGuarded
    refine .inr ?_
    simp only [System.exchange, System.setLock]
    rw [if_neg]
    rintro rfl
    exact free_guard invariant free other otherGuarded
  · intro probe isGuarded
    obtain rfl : lock = probe := Option.some.inj (guarded.symm.trans isGuarded)
    exact ⟨by simp [System.exchange, System.setLock], fun other _ => free_guard invariant free other⟩
  · intro probe isTest
    rw [isTest] at guarded
    obtain rfl : probe = lock := Option.some.inj guarded
    simp [System.exchange, System.setLock]

end

/-- Setting the flag byte keeps the four bytes of the guard. -/
theorem set_flag_guard (word value : Nat) : setFlag word value % 2 ^ 32 = word % 2 ^ 32 := by
  unfold setFlag
  omega

/-- A step of a process keeps the invariant. The steps of waiting do not occur. -/
theorem advance_invariant (invariant : Invariant system) (pid : Nat) :
    Invariant (advance system pid) := by
  have never := invariant.never pid
  have awake := invariant.awake pid
  unfold advance
  split
  case h_1 => exact invariant
  case h_2 lock here =>
    split
    · exact spin_again invariant lock
    · next free => exact spin_takes invariant (not_not.mp free) rfl awake rfl
  case h_3 lock here =>
    have guarded := congrArg Pc.guarded here
    have clear : flag (system.locks lock).word = 0 := by
      rw [invariant.tested pid lock here]
      decide
    rw [if_pos clear]
    exact private_moves invariant rfl awake (fun probe same => guarded.trans same) (by simp)
  case h_4 lock here =>
    have guarded := congrArg Pc.guarded here
    refine guarded_moves invariant guarded rfl awake (.inr ⟨rfl, ?_⟩) (by simp)
    rw [set_flag_guard]
    exact invariant.taken pid lock guarded
  case h_5 lock here =>
    exact guarded_moves invariant (congrArg Pc.guarded here) rfl awake (.inl rfl) (by simp)
  case h_11 lock here =>
    split
    · exact spin_again invariant lock
    · next free => exact spin_takes invariant (not_not.mp free) rfl awake rfl
  case h_12 lock here =>
    have guarded := congrArg Pc.guarded here
    rw [if_pos (invariant.nobody lock)]
    exact private_moves invariant rfl awake (fun probe same => guarded.trans same) (by simp)
  case h_13 lock here =>
    have guarded := congrArg Pc.guarded here
    refine guarded_moves invariant guarded rfl awake (.inr ⟨rfl, ?_⟩) (by simp)
    rw [set_flag_guard]
    exact invariant.taken pid lock guarded
  case h_16 lock here =>
    exact guarded_moves invariant (congrArg Pc.guarded here) rfl awake (.inl rfl) (by simp)
  all_goals
    next here =>
      rw [here] at never
      cases never

end Steps

theorem machine_invariant : Inductive machine Invariant where
  starts := by
    rintro system rfl
    exact ⟨by simp [start, Pc.guarded], by simp [start, Pc.guarded], by simp [start],
      by simp [start], by simp [start, Pc.parks], by simp [start]⟩
  preserved := by
    rintro system call invariant permitted
    cases call with
    | lock pid lock =>
      exact ⟨_, rfl, private_moves invariant rfl (invariant.awake pid) (by simp [Pc.guarded])
        (by simp)⟩
    | unlock pid lock =>
      exact ⟨_, rfl, private_moves invariant rfl (invariant.awake pid) (by simp [Pc.guarded])
        (by simp)⟩
    | advance pid => exact ⟨_, rfl, advance_invariant invariant pid⟩

section Entering

variable {system : System}

/-- The system after a process has called lock and made four steps alone. -/
def lockAlone (system : System) (pid lock : Nat) : System :=
  advance (advance (advance (advance (system.goto pid (.lockSpin lock)) pid) pid) pid) pid

/-- A process that finds the guard free comes inside in four steps, whoever else is inside. -/
theorem lockAlone_held (free : (system.locks lock).word = 0) :
    (∀ other, other ≠ pid →
      (lockAlone system pid lock).processes other = system.processes other) ∧
    ((lockAlone system pid lock).processes pid).held = lock :: (system.processes pid).held := by
  have spins : advance (system.goto pid (.lockSpin lock)) pid =
      ((system.goto pid (.lockSpin lock)).exchange lock 1).goto pid (.lockTest lock) := by
    simp [advance, System.goto, System.setProcess, free]
  have tests : flag 1 = 0 := by decide
  rw [lockAlone, spins]
  constructor
  · intro other different
    simp [advance, System.goto, System.setProcess, System.exchange, System.setLock, System.enter,
      tests, different]
  · simp [advance, System.goto, System.setProcess, System.exchange, System.setLock, System.enter,
      tests]

theorem lockAlone_reachable (reached : Reachable machine system)
    (idle : (system.processes pid).pc = .idle) (lock : Nat) :
    Reachable machine (lockAlone system pid lock) := by
  have alone {state : System} (reached : Reachable machine state) :
      Reachable machine (advance state pid) :=
    reached.call (.advance pid) ((machine_invariant.holds reached).awake pid) rfl
  exact alone (alone (alone (alone (reached.call (.lock pid lock) idle rfl))))

end Entering

end Balrog.Mutex
