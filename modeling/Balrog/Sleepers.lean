import Balrog.RbtRuns

/-!
# Sleeping processes and the timer

`sleep` files the caller in a red-black tree under its wake-up time, and every timer
tick runs `wake_up`, which takes the first node off the tree as long as its time is
in the past. The tree is the one of `RbtNodes`; a node's value is the address of a
`sleeper_data` record.

A run consists of `nanosleep` calls of ready processes and of timer ticks. Every pid
resolves to its process, and the ready list, which is kept elsewhere, is not looked
at: going to sleep and becoming ready again are the changes of the state byte.
Allocation succeeds and yields unused addresses.
-/

namespace Balrog.Sleepers

open Runs RedBlack RbtNodes RbtShape RbtSearch RbtInsert RbtDelete RbtRuns List Option

/-- `PROCESS_STATE_READY` -/
def stateReady : Nat := 0

/-- `PROCESS_STATE_RUNNING` -/
def stateRunning : Nat := 1

/-- `PROCESS_STATE_SLEEPING` -/
def stateSleeping : Nat := 5

/-- `timespec` -/
structure Time where
  sec : Nat
  msec : Nat
deriving DecidableEq, Repr

/-- `sleeper_data` -/
structure SleeperData where
  process : Nat
  time : Time

/-- What the functions below read and write of a process. -/
structure Process where
  state : Nat
  sleeperNode : Nat

/-- The sleeper tree, the records behind its nodes, the processes by pid, the clock,
and the wake-up time each process asked for last. -/
structure System where
  store : Store
  sleepers : Nat → Option SleeperData
  processes : Nat → Process
  now : Time
  requested : Nat → Time

/-- `FREQUENCY`: ticks in a second. -/
def frequency : Nat := 100

/-- `get_relative_time` -/
def getRelativeTime (now time : Time) : Time :=
  let sec := (now.sec + time.sec) % 2 ^ 64
  let msec := (now.msec + time.msec) % 2 ^ 16
  if frequency ≤ msec then { sec := (sec + 1) % 2 ^ 64, msec := msec % frequency }
  else { sec := sec, msec := msec }

/-- `get_tree_key` -/
def getTreeKey (time : Time) : Nat := (time.sec * 1000 + time.msec) % 2 ^ 64

/-- `pit_compare`: the time is before now. -/
def pitCompare (now time : Time) : Bool :=
  time.sec < now.sec ∨ (now.sec = time.sec ∧ time.msec < now.msec)

/-- Change the entry of one address or pid. -/
def change {α : Type} (table : Nat → α) (place : Nat) (value : α) : Nat → α :=
  fun probe => if probe = place then value else table probe

/-- `proc_to_sleep`: a ready or running process leaves the ready list and gets the
given state. -/
def procToSleep (processes : Nat → Process) (pid setState : Nat) : Nat → Process :=
  let process := processes pid
  if process.state = stateReady ∨ process.state = stateRunning then
    change processes pid { process with state := process.state &&& 0xfe ||| setState }
  else processes

/-- `sleep` with the time already made absolute. `fresh` and `record` are the
addresses that the allocations of a node and of a record would yield. -/
def sleep (system : System) (pid : Nat) (time : Time) (fresh garbage record : Nat) :
    Option System := do
  let (node, store) ← rbtInsert system.store fresh garbage (getTreeKey time)
  let store ← update store node (fun node => { node with value := record })
  let processes := change system.processes pid { system.processes pid with sleeperNode := node }
  some { system with
    store := store
    sleepers := change system.sleepers record (some { process := pid, time := time })
    processes := procToSleep processes pid stateSleeping
    requested := change system.requested pid time }

/-- What `wake_up` does to the process of a due sleeper. -/
def wakeProcess (processes : Nat → Process) (pid : Nat) : Nat → Process :=
  let process := processes pid
  if process.state &&& stateSleeping ≠ 0 then
    change processes pid
      { state := if process.state = stateSleeping then stateReady
                 else process.state ^^^ stateSleeping
        sleeperNode := 0 }
  else processes

/-- `wake_up`, at the node that `rbt_minimum` returned last. -/
def wakeUp : Nat → System → Option System
  | 0, _ => none
  | fuel + 1, system => do
    let node ← rbtMinimum system.store
    if node = 0 then some system
    else
      let nodeData ← load system.store node
      if nodeData.value = 0 then
        let store ← rbtDelete system.store node
        wakeUp fuel { system with store := store }
      else
        let sleeper ← system.sleepers nodeData.value
        if pitCompare system.now sleeper.time = false then some system
        else
          let store ← rbtDelete system.store node
          wakeUp fuel { system with
            store := store
            processes := wakeProcess system.processes sleeper.process
            sleepers := change system.sleepers nodeData.value none }

/-- The clock after `__on_tick`. -/
def nextTime (now : Time) : Time :=
  let msec := (now.msec + 1) % 2 ^ 8
  if msec = frequency then { sec := (now.sec + 1) % 2 ^ 64, msec := 0 }
  else { sec := now.sec, msec := msec }

/-- The timer's interrupt: the clock advances, then the sleepers that are due are woken. -/
def onTick (system : System) : Option System :=
  wakeUp addresses { system with now := nextTime system.now }

/-- A process goes to sleep, or the timer ticks. -/
inductive Call where
  | nanosleep (pid : Nat) (time : Time) (fresh garbage record : Nat)
  | tick

/-- One event; a sleep is given as a span from now. -/
def step (system : System) : Call → Option System
  | .nanosleep pid time fresh garbage record =>
    sleep system pid (getRelativeTime system.now time) fresh garbage record
  | .tick => onTick system

/-- The caller is ready, and the allocations yield unused addresses. `condition`
restricts the wake-up times. -/
def allowed (condition : System → Time → Prop) (system : System) : Call → Prop
  | .nanosleep pid time fresh _ record =>
    (system.processes pid).state = stateReady ∧
    system.store.nodes fresh = none ∧ 0 < fresh ∧ fresh < addresses ∧
    system.sleepers record = none ∧ 0 < record ∧
    condition system (getRelativeTime system.now time)
  | .tick => True

/-- The runs from an empty sleeper tree with all processes ready. -/
def machine (condition : System → Time → Prop) : Machine System Call where
  initial system :=
    system.store = { nodes := fun _ => none, root := 0 } ∧ (∀ record, system.sleepers record = none) ∧
      ∀ pid, (system.processes pid).state = stateReady
  allowed := allowed condition
  step := step

/-- No process is still sleeping with a wake-up time in the past. -/
def AllWoken (system : System) : Prop :=
  ∀ pid, (system.processes pid).state = stateSleeping →
    pitCompare system.now (system.requested pid) = false

/-- The wake-up time fits the key, and no process sleeps until the same tick. -/
def Distinct (system : System) (time : Time) : Prop :=
  time.sec * 1000 + time.msec < 2 ^ 64 ∧
    ∀ pid, (system.processes pid).state = stateSleeping → system.requested pid ≠ time

@[simp] theorem change_same {α : Type} (table : Nat → α) (place : Nat) (value : α) :
    change table place value place = value := if_pos rfl

variable {time first second now : Time} {pid place probe key value other fuel fresh record : Nat}

theorem change_other {α : Type} {table : Nat → α} {value : α} (different : probe ≠ place) :
    change table place value probe = table probe := if_neg different

/-- A time whose key is not cut off. -/
structure Proper (time : Time) : Prop where
  msec : time.msec < frequency
  key : time.sec * 1000 + time.msec < 2 ^ 64

/-- The ticks of a wake-up time stay below the frequency. -/
theorem relative_msec (now time : Time) : (getRelativeTime now time).msec < frequency := by
  simp only [getRelativeTime]
  split
  · exact Nat.mod_lt _ (by decide)
  · next small => exact Nat.lt_of_not_le small

theorem tree_key_eq (proper : Proper time) :
    getTreeKey time = time.sec * 1000 + time.msec := Nat.mod_eq_of_lt proper.key

theorem tree_key_inj (firstProper : Proper first) (secondProper : Proper second)
    (same : getTreeKey first = getTreeKey second) : first = second := by
  rw [tree_key_eq firstProper, tree_key_eq secondProper] at same
  have firstSmall := firstProper.msec
  have secondSmall := secondProper.msec
  unfold frequency at firstSmall secondSmall
  obtain ⟨firstSec, firstMsec⟩ := first
  obtain ⟨secondSec, secondMsec⟩ := second
  simp only [Time.mk.injEq] at *
  omega

theorem compare_mono (firstProper : Proper first) (secondProper : Proper second)
    (smaller : getTreeKey first ≤ getTreeKey second) (past : pitCompare now second = true) :
    pitCompare now first = true := by
  rw [tree_key_eq firstProper, tree_key_eq secondProper] at smaller
  have firstSmall := firstProper.msec
  have secondSmall := secondProper.msec
  unfold frequency at firstSmall secondSmall
  simp only [pitCompare, decide_eq_true_eq] at past ⊢
  omega

/-- The tree holds exactly the sleeping processes, each under its wake-up time. -/
structure Invariant (system : System) (tree : RedBlack.Tree Entry) : Prop where
  valid : Valid system.store tree
  filed : ∀ key value, (key, value) ∈ pairs tree → value ≠ 0 ∧
    ∃ pid time, system.sleepers value = some { process := pid, time := time } ∧
      key = getTreeKey time ∧ Proper time ∧ (system.processes pid).state = stateSleeping ∧
      system.requested pid = time
  asleep : ∀ pid, (system.processes pid).state = stateSleeping → ∃ value,
    (getTreeKey (system.requested pid), value) ∈ pairs tree ∧
      system.sleepers value = some { process := pid, time := system.requested pid }

/-- The same entry by entry, and each entry is at the node that its process has. -/
structure Kept (system : System) (tree : RedBlack.Tree Entry) : Prop where
  valid : Valid system.store tree
  filed : ∀ entry ∈ tree.toList, entry.value ≠ 0 ∧
    ∃ pid, system.sleepers entry.value = some { process := pid, time := system.requested pid } ∧
      entry.key = getTreeKey (system.requested pid) ∧ Proper (system.requested pid) ∧
      (system.processes pid).state = stateSleeping ∧
      (system.processes pid).sleeperNode = entry.address
  asleep : ∀ pid, (system.processes pid).state = stateSleeping → ∃ entry ∈ tree.toList,
    system.sleepers entry.value = some { process := pid, time := system.requested pid }

/-- A process that does not sleep has no node. -/
def Rests (system : System) : Prop :=
  ∀ pid, (system.processes pid).state ≠ stateSleeping → (system.processes pid).sleeperNode = 0

section Wake

variable {system : System} {tree : RedBlack.Tree Entry}

theorem Rests.change (rests : Rests system) (pid : Nat) (process : Process)
    (clear : process.state ≠ stateSleeping → process.sleeperNode = 0) (store : Store)
    (sleepers : Nat → Option SleeperData) (requested : Nat → Time) :
    Rests ⟨store, sleepers, change system.processes pid process, system.now, requested⟩ := by
  intro other awake
  by_cases same : other = pid
  · subst same
    simp only [change_same] at awake ⊢
    exact clear awake
  · simp only [change_other same] at awake ⊢
    exact rests other awake

section

variable (kept : Kept system tree)
include kept

theorem Kept.entry (sleeping : (system.processes pid).state = stateSleeping) :
    ∃ entry ∈ tree.toList, entry.address = (system.processes pid).sleeperNode ∧
      entry.key = getTreeKey (system.requested pid) ∧ Proper (system.requested pid) ∧
      system.sleepers entry.value = some { process := pid, time := system.requested pid } := by
  obtain ⟨entry, member, record⟩ := kept.asleep pid sleeping
  obtain ⟨_, other, otherRecord, isKey, proper, _, address⟩ := kept.filed entry member
  obtain rfl : pid = other :=
    congrArg SleeperData.process (Option.some.inj (record.symm.trans otherRecord))
  exact ⟨entry, member, address.symm, isKey, proper, record⟩

theorem Kept.invariant : Invariant system tree := by
  refine ⟨kept.valid, fun key value inside => ?_, fun pid sleeping => ?_⟩
  · obtain ⟨entry, member, same⟩ := mem_map.mp inside
    obtain ⟨rfl, rfl⟩ := Prod.mk.inj same
    obtain ⟨positive, pid, record, isKey, proper, sleeping, _⟩ := kept.filed entry member
    exact ⟨positive, pid, _, record, isKey, proper, sleeping, rfl⟩
  · obtain ⟨entry, member, _, isKey, _, record⟩ := kept.entry sleeping
    exact ⟨entry.value, isKey ▸ pair_mem member, record⟩

theorem Kept.unique {one two : Entry} {oneTime twoTime : Time} (inOne : one ∈ tree.toList)
    (inTwo : two ∈ tree.toList) (oneRecord : system.sleepers one.value = some ⟨pid, oneTime⟩)
    (twoRecord : system.sleepers two.value = some ⟨pid, twoTime⟩) : one = two := by
  obtain ⟨_, onePid, isOne, _, _, _, oneAddress⟩ := kept.filed one inOne
  obtain ⟨_, twoPid, isTwo, _, _, _, twoAddress⟩ := kept.filed two inTwo
  obtain rfl : pid = onePid :=
    congrArg SleeperData.process (Option.some.inj (oneRecord.symm.trans isOne))
  obtain rfl : pid = twoPid :=
    congrArg SleeperData.process (Option.some.inj (twoRecord.symm.trans isTwo))
  exact inj_on_of_nodup_map kept.valid.represents.distinct inOne inTwo
    (oneAddress.symm.trans twoAddress)

theorem Kept.value_unique {one two : Entry} (inOne : one ∈ tree.toList) (inTwo : two ∈ tree.toList)
    (same : one.value = two.value) : one = two := by
  obtain ⟨_, pid, record, _⟩ := kept.filed one inOne
  exact kept.unique inOne inTwo record (same ▸ record)

/-- Taking the entry of a process that stops sleeping off the tree. -/
theorem remove_kept {store : Store} {entry : Entry} {tree' : RedBlack.Tree Entry}
    {lower upper : List Entry} (valid : Valid store tree')
    (whole : tree.toList = lower ++ entry :: upper) (less : tree'.toList = lower ++ upper)
    (own : system.sleepers entry.value = some { process := pid, time := system.requested pid })
    (process : Process) (stops : process.state ≠ stateSleeping)
    {sleepers : Nat → Option SleeperData}
    (same : ∀ value, value ≠ entry.value → sleepers value = system.sleepers value) :
    Kept { system with
      store := store
      processes := change system.processes pid process
      sleepers := sleepers } tree' := by
  have inside := mem_less kept.valid whole less
  have member : entry ∈ tree.toList := by
    rw [whole]
    exact mem_append_right _ mem_cons_self
  have apart {other : Entry} (there : other ∈ tree'.toList) {otherPid : Nat} {time : Time}
      (record : system.sleepers other.value = some { process := otherPid, time := time }) :
      otherPid ≠ pid ∧ other.value ≠ entry.value := by
    obtain ⟨old, different⟩ := (inside other).mp there
    constructor
    · rintro rfl
      exact different (kept.unique old member record own)
    · exact fun same => different (kept.value_unique old member same)
  refine ⟨valid, ?_, ?_⟩
  · intro other there
    obtain ⟨positive, otherPid, record, isKey, proper, sleeping, address⟩ :=
      kept.filed other ((inside other).mp there).1
    obtain ⟨otherApart, valueApart⟩ := apart there record
    refine ⟨positive, otherPid, (same _ valueApart).trans record, isKey, proper, ?_, ?_⟩
    · simp only [change_other otherApart, sleeping]
    · simp only [change_other otherApart, address]
  · intro otherPid sleeping
    have otherApart : otherPid ≠ pid := by
      rintro rfl
      simp only [change_same] at sleeping
      exact stops sleeping
    simp only [change_other otherApart] at sleeping
    obtain ⟨other, old, record⟩ := kept.asleep otherPid sleeping
    have there : other ∈ tree'.toList := by
      refine (inside other).mpr ⟨old, ?_⟩
      rintro rfl
      rw [own] at record
      exact otherApart (congrArg SleeperData.process (Option.some.inj record)).symm
    exact ⟨other, there, (same _ (apart there record).2).trans record⟩

end

/-- `wake_up` returns, and no process is left sleeping with a time in the past. The
induction is on the fuel; every round takes the first node off the tree, which has no left child. -/
theorem wake_up_spec (kept : Kept system tree) (enough : tree.toList.length < fuel) :
    ∃ after tree', wakeUp fuel system = some after ∧ Kept after tree' ∧ AllWoken after ∧
      (Rests system → Rests after) := by
  induction fuel generalizing system tree with
  | zero => omega
  | succ fuel ih =>
    have valid := kept.valid
    rcases rbt_minimum_spec valid with ⟨empty, result⟩ | ⟨first, rest, entries, result⟩
    · refine ⟨system, tree, ?_, kept, fun pid sleeping => ?_, id⟩
      · simp [wakeUp, result]
      · obtain ⟨entry, member, _⟩ := kept.asleep pid sleeping
        rw [empty] at member
        cases member
    · have member : first ∈ tree.toList := by
        rw [entries]
        exact mem_cons_self
      have positive : first.address ≠ 0 :=
        Nat.ne_of_gt (valid.represents.valid _ (mem_map_of_mem member)).1
      obtain ⟨node, read, _, valueIs⟩ := entry_load valid member
      obtain ⟨valuePositive, pid, record, keyIs, proper, sleeping, _⟩ := kept.filed first member
      by_cases due : pitCompare system.now (system.requested pid) = true
      · obtain ⟨store, tree', lower, upper, deleted, afterValid, whole, less⟩ :=
          rbt_delete_single valid member fun node read => .inl (first_single valid entries read)
        have woken : wakeProcess system.processes pid =
            change system.processes pid { state := stateReady, sleeperNode := 0 } := by
          rw [wakeProcess, sleeping]
          rfl
        have shorter : tree'.toList.length < fuel := by
          rw [whole, length_append, length_cons] at enough
          rw [less, length_append]
          omega
        obtain ⟨after, final, wakes, afterKept, allWoken, rests⟩ := ih
          (remove_kept kept afterValid whole less record ⟨stateReady, 0⟩ (by decide)
            fun value different => change_other different) shorter
        refine ⟨after, final, ?_, afterKept, allWoken, fun before =>
          rests (before.change pid ⟨stateReady, 0⟩ (fun _ => rfl) _ _ _)⟩
        simp only [wakeUp, result, bind_eq_bind, bind_some, if_neg positive, read, valueIs,
          if_neg valuePositive, record, due, Bool.true_eq_false, if_false, deleted, woken]
        exact wakes
      · rw [Bool.not_eq_true] at due
        refine ⟨system, tree, ?_, kept, fun other otherSleeping => ?_, id⟩
        · simp only [wakeUp, result, bind_eq_bind, bind_some, if_neg positive, read,
            valueIs, if_neg valuePositive, record, due, if_true]
        · by_contra past
          rw [Bool.not_eq_false] at past
          obtain ⟨entry, there, _, isKey, otherProper, _⟩ := kept.entry otherSleeping
          have minimal : first.key ≤ entry.key := by
            have ordered := valid.ordered
            rw [Ordered, entries, map_cons, pairwise_cons] at ordered
            rw [entries] at there
            rcases mem_cons.mp there with rfl | later
            · exact Nat.le_refl _
            · exact Nat.le_of_lt (ordered.1 _ (mem_map_of_mem later))
          rw [keyIs, isKey] at minimal
          have also := compare_mono proper otherProper minimal past
          rw [due] at also
          cases also

theorem proc_to_sleep_ready {processes : Nat → Process} (ready : (processes pid).state = stateReady)
    (pointer : Nat) :
    procToSleep (change processes pid { processes pid with sleeperNode := pointer }) pid
        stateSleeping =
      change processes pid { state := stateSleeping, sleeperNode := pointer } := by
  unfold procToSleep
  simp only [change_same, ready, true_or, if_true]
  funext probe
  simp only [change]
  split <;> rfl

variable {delay : Time} {garbage : Nat}

/-- `sleep` puts one node with the record of the process into the tree. The node that gets the
record is the inserted one, since a node is in the tree once. -/
theorem sleep_files {condition : System → Time → Prop} (valid : Valid system.store tree)
    (permitted : allowed condition system (.nanosleep pid delay fresh garbage record))
    (isTime : getRelativeTime system.now delay = time)
    (newKey : ∀ entry ∈ tree.toList, entry.key ≠ getTreeKey time) :
    ∃ pointer store filed, step system (.nanosleep pid delay fresh garbage record) =
        some ⟨store, change system.sleepers record (some ⟨pid, time⟩),
          change system.processes pid ⟨stateSleeping, pointer⟩, system.now,
          change system.requested pid time⟩ ∧
      Valid store filed ∧ ∀ entry, entry ∈ filed.toList ↔
        entry = ⟨pointer, getTreeKey time, record⟩ ∨ entry ∈ tree.toList := by
  obtain ⟨ready, unused, positive, bound, _⟩ := permitted
  obtain ⟨pointer, store, inserted, result, insertedValid, inserts⟩ :=
    rbt_insert_spec valid fresh garbage (getTreeKey time) unused positive bound
  rcases inserts with ⟨_, entry, member, isKey, _⟩ | ⟨_, rfl, lower, upper, whole, more⟩
  · exact absurd isKey (newKey entry member)
  have member : (⟨pointer, getTreeKey time, garbage⟩ : Entry) ∈ inserted.toList := by
    rw [more]
    exact mem_append_right _ mem_cons_self
  obtain ⟨after, filed, lower', upper', assigned, afterValid, whole', replaced⟩ :=
    assign_entries insertedValid member record
  have asleepNow := proc_to_sleep_ready ready pointer
  refine ⟨pointer, after, filed, ?_, afterValid, fun entry => ?_⟩
  · simp only [step, sleep, isTime, result, bind_eq_bind, bind_some, assigned, asleepNow]
  · have once : inserted.toList.Nodup := List.Nodup.of_map _ insertedValid.represents.distinct
    rw [more, nodup_middle, nodup_cons, mem_append, not_or] at once
    obtain ⟨rfl, _, rfl⟩ := (append_cons_inj_of_notMem once.1.1 once.1.2).mp
      (more.symm.trans whole')
    rw [replaced, whole, mem_append, mem_cons, mem_append]
    exact or_left_comm

/-- Filing a process under a wake-up time that no sleeper has. -/
theorem sleep_kept {condition : System → Time → Prop} (kept : Kept system tree)
    (permitted : allowed condition system (.nanosleep pid delay fresh garbage record))
    (asked : Distinct system (getRelativeTime system.now delay)) :
    ∃ after, step system (.nanosleep pid delay fresh garbage record) = some after ∧
      (∃ tree, Kept after tree) ∧ (Rests system → Rests after) := by
  obtain ⟨ready, _, _, _, recordUnused, recordPositive, _⟩ := id permitted
  obtain ⟨fits, distinct⟩ := asked
  have proper : Proper (getRelativeTime system.now delay) := ⟨relative_msec system.now delay, fits⟩
  generalize isTime : getRelativeTime system.now delay = time at proper distinct
  have recordApart {value : Nat} {data : SleeperData}
      (otherRecord : system.sleepers value = some data) : value ≠ record := by
    rintro rfl
    rw [recordUnused] at otherRecord
    cases otherRecord
  have newKey : ∀ entry ∈ tree.toList, entry.key ≠ getTreeKey time := by
    intro entry member same
    obtain ⟨_, other, _, isKey, otherProper, sleeping, _⟩ := kept.filed entry member
    exact distinct other sleeping (tree_key_inj otherProper proper (isKey.symm.trans same))
  obtain ⟨pointer, after, filed, result, afterValid, inside⟩ :=
    sleep_files kept.valid permitted isTime newKey
  refine ⟨_, result, ⟨filed, afterValid, ?_, ?_⟩, fun rests =>
    rests.change pid ⟨stateSleeping, pointer⟩ (absurd rfl) _ _ _⟩
  · intro entry isFiled
    rcases (inside entry).mp isFiled with rfl | old
    · refine ⟨Nat.ne_of_gt recordPositive, pid, ?_, ?_, ?_, ?_, ?_⟩
      all_goals simp only [change_same]
      exact proper
    · obtain ⟨valuePositive, other, otherRecord, isKey, otherProper, sleeping, address⟩ :=
        kept.filed entry old
      have apart : other ≠ pid := by
        rintro rfl
        rw [ready] at sleeping
        cases sleeping
      refine ⟨valuePositive, other, ?_, ?_, ?_, ?_, ?_⟩
      all_goals simp only [change_other apart, change_other (recordApart otherRecord)]
      · exact otherRecord
      · exact isKey
      · exact otherProper
      · exact sleeping
      · exact address
  · intro other sleeping
    by_cases same : other = pid
    · subst same
      refine ⟨_, (inside _).mpr (.inl rfl), ?_⟩
      simp only [change_same]
    · simp only [change_other same] at sleeping ⊢
      obtain ⟨entry, old, otherRecord⟩ := kept.asleep other sleeping
      exact ⟨entry, (inside entry).mpr (.inr old),
        (change_other (recordApart otherRecord)).trans otherRecord⟩

/-- At a tick the clock moves on, and the sleepers that are due are woken. -/
theorem tick_kept (kept : Kept system tree) :
    ∃ after, step system .tick = some after ∧ (∃ tree, Kept after tree) ∧ AllWoken after ∧
      (Rests system → Rests after) := by
  have ticked : Kept { system with now := nextTime system.now } tree := { kept with }
  obtain ⟨after, tree', result, afterKept, woken, rests⟩ :=
    wake_up_spec ticked (represents_size kept.valid.represents)
  exact ⟨after, result, ⟨tree', afterKept⟩, woken, rests⟩

theorem start_kept {condition : System → Time → Prop}
    (starts : (machine condition).initial system) : Kept system .leaf := by
  obtain ⟨empty, _, ready⟩ := starts
  refine ⟨⟨⟨by rw [empty]; rfl, trivial, by simp [places], by simp [places],
    fun _ _ => by rw [empty]⟩, by simp [Ordered], rfl, 0, rfl⟩, fun _ member => ?_,
    fun pid sleeping => ?_⟩
  · cases member
  · rw [ready pid] at sleeping
    cases sleeping

end Wake

/-- Every request under the condition and every tick keep the entries. -/
theorem machine_invariant :
    Inductive (machine Distinct) (fun system => ∃ tree, Kept system tree) where
  starts system starts := ⟨.leaf, start_kept starts⟩
  preserved := by
    rintro system call ⟨tree, kept⟩ permitted
    cases call with
    | nanosleep pid time fresh garbage record =>
      obtain ⟨after, result, afterKept, _⟩ := sleep_kept kept permitted permitted.2.2.2.2.2.2
      exact ⟨after, result, afterKept⟩
    | tick =>
      obtain ⟨after, result, afterKept, _⟩ := tick_kept kept
      exact ⟨after, result, afterKept⟩

/-- In every run whose requests all meet the condition, the tree holds the sleeping processes. -/
theorem sleepers_filed (system : System) (reached : Reachable (machine Distinct) system) :
    ∃ tree, Invariant system tree := by
  obtain ⟨tree, kept⟩ := machine_invariant.holds reached
  exact ⟨tree, kept.invariant⟩

/-- In every run whose requests all meet the condition, a tick returns, and after it
no process is still sleeping with a wake-up time before now. -/
theorem sleepers_woken (system : System) (reached : Reachable (machine Distinct) system) :
    ∃ after, step system .tick = some after ∧ AllWoken after := by
  obtain ⟨tree, kept⟩ := machine_invariant.holds reached
  obtain ⟨after, result, _, woken, _⟩ := tick_kept kept
  exact ⟨after, result, woken⟩

/-- What a sleeping process has asked for is recorded. -/
theorem sleep_requested {system after : System} {pid fresh garbage record : Nat} {time : Time}
    (slept : sleep system pid time fresh garbage record = some after) :
    after.requested = change system.requested pid time := by
  simp only [sleep, Option.bind_eq_bind, Option.bind_eq_some_iff] at slept
  obtain ⟨_, _, _, _, isAfter⟩ := slept
  rw [← Option.some.inj isAfter]

/-- The kernel at boot: no sleepers, all processes ready, clock at zero. -/
def start : System :=
  { store := { nodes := fun _ => none, root := 0 }
    sleepers := fun _ => none
    processes := fun _ => { state := stateReady, sleeperNode := 0 }
    now := { sec := 0, msec := 0 }
    requested := fun _ => { sec := 0, msec := 0 } }

/-- Process 1 sleeps until the tick of its request. -/
def firstAsleep : System :=
  (step start (.nanosleep 1 ⟨0, 0⟩ 16 0 24)).get (by decide +kernel)

/-- Two processes ask to sleep, for no time and for one tick. -/
theorem two_asleep : ∃ system, Reachable (machine Distinct) system ∧
    (system.processes 1).state = stateSleeping ∧ (system.processes 2).state = stateSleeping := by
  have zero : Reachable (machine Distinct) start := .initial ⟨rfl, fun _ => rfl, fun _ => rfl⟩
  have first : step start (.nanosleep 1 ⟨0, 0⟩ 16 0 24) = some firstAsleep :=
    (Option.some_get _).symm
  have one := zero.call (.nanosleep 1 ⟨0, 0⟩ 16 0 24)
    ⟨rfl, rfl, by decide, by decide, rfl, by decide, by decide, fun _ asleep => by cases asleep⟩
    first
  have other : ∀ pid, firstAsleep.requested pid = ⟨0, 0⟩ := by
    intro pid
    rw [sleep_requested first, change]
    split <;> rfl
  have two := one.call (.nanosleep 2 ⟨0, 1⟩ 32 0 40)
    ⟨by decide +kernel, Option.isNone_iff_eq_none.mp (by decide +kernel), by decide, by decide,
      Option.isNone_iff_eq_none.mp (by decide +kernel), by decide, by decide +kernel, fun pid _ => by
        rw [other pid]
        decide +kernel⟩
    (Option.some_get (by decide +kernel)).symm
  exact ⟨_, two, by decide +kernel, by decide +kernel⟩

/-- A tick while two processes sleep. -/
theorem sleepers_woken_two : ∃ system, (system.processes 1).state = stateSleeping ∧
    (system.processes 2).state = stateSleeping ∧
    ∃ after, step system .tick = some after ∧ AllWoken after := by
  obtain ⟨system, reached, first, second⟩ := two_asleep
  exact ⟨system, first, second, sleepers_woken system reached⟩

/-- Two sleeping processes are filed. -/
theorem sleepers_filed_two : ∃ system, (system.processes 1).state = stateSleeping ∧
    (system.processes 2).state = stateSleeping ∧ ∃ tree, Invariant system tree := by
  obtain ⟨system, reached, first, second⟩ := two_asleep
  exact ⟨system, first, second, sleepers_filed system reached⟩

/-- Two processes sleep until the same tick. The second takes over the node of the
first, and the first is never woken. -/
theorem same_tick_lost :
    ∃ system after, Reachable (machine (fun _ _ => True)) system ∧
      step system .tick = some after ∧ ¬ AllWoken after := by
  have zero : Reachable (machine (fun _ _ => True)) start :=
    .initial ⟨rfl, fun _ => rfl, fun _ => rfl⟩
  have one := zero.call (.nanosleep 1 ⟨0, 0⟩ 16 0 24)
    ⟨rfl, rfl, by decide, by decide, rfl, by decide, trivial⟩
    (Option.some_get (by decide +kernel)).symm
  have two := one.call (.nanosleep 2 ⟨0, 0⟩ 32 0 40)
    ⟨by decide +kernel, Option.isNone_iff_eq_none.mp (by decide +kernel), by decide, by decide,
      Option.isNone_iff_eq_none.mp (by decide +kernel), by decide, trivial⟩
    (Option.some_get (by decide +kernel)).symm
  refine ⟨_, _, two, (Option.some_get (by decide +kernel)).symm, fun woken => ?_⟩
  have asleep := woken 1 (by decide +kernel)
  exact absurd asleep (by decide +kernel)

/-- What `sleep` of the C library passes to the kernel: seconds, and the rest in milliseconds. -/
def sleepRequest (ms : Nat) : Time := { sec := ms / 1000, msec := ms % 1000 }

/-- A time in ticks. The kernel counts them in `msec`. -/
def Time.ticks (time : Time) : Nat := time.sec * frequency + time.msec

/-- What is asked of a wake-up time: it is the current time and the delay, counted in ticks, it is
normalised, and a shorter delay does not end later. -/
structure WakesRight (now time : Time) : Prop where
  ticks : (getRelativeTime now time).ticks = now.ticks + time.ticks
  normal : (getRelativeTime now time).msec < frequency
  ordered : ∀ shorter : Time, shorter.ticks ≤ time.ticks →
    (getRelativeTime now shorter).ticks ≤ (getRelativeTime now time).ticks

/-- A wake-up time is never too late: what can be lost is a carry, or a wrap of a counter. -/
theorem ticks_le (now time : Time) :
    (getRelativeTime now time).ticks ≤ now.ticks + time.ticks := by
  simp only [getRelativeTime, Time.ticks]
  by_cases carries : frequency ≤ (now.msec + time.msec) % 2 ^ 16
  · simp only [if_pos carries]
    unfold frequency at *
    omega
  · simp only [if_neg carries]
    unfold frequency at *
    omega

/-- The wake-up time is exact if no more than one second is carried, and the seconds do not wrap. -/
theorem ticks_iff (now time : Time) :
    (getRelativeTime now time).ticks = now.ticks + time.ticks ↔
      now.msec + time.msec < 200 ∧
        now.sec + time.sec + (now.msec + time.msec) / 100 < 2 ^ 64 := by
  have total : now.ticks + time.ticks = (now.sec + time.sec) * 100 + (now.msec + time.msec) := by
    simp only [Time.ticks, frequency]
    omega
  rw [total, getRelativeTime]
  generalize now.msec + time.msec = rest
  generalize now.sec + time.sec = seconds
  have positive : 0 < 2 ^ 64 := by decide
  generalize 2 ^ 64 = limit at *
  rcases Nat.lt_or_ge seconds limit with inside | outside
  · rw [Nat.mod_eq_of_lt inside]
    by_cases carries : frequency ≤ rest % 2 ^ 16
    · simp only [if_pos carries, Time.ticks]
      rcases Nat.lt_or_ge (seconds + 1) limit with fits | last
      · rw [Nat.mod_eq_of_lt fits]
        unfold frequency at *
        omega
      · have isLast : seconds + 1 = limit := Nat.le_antisymm inside last
        rw [isLast, Nat.mod_self]
        unfold frequency at *
        omega
    · simp only [if_neg carries, Time.ticks]
      unfold frequency at *
      omega
  · -- the seconds wrap, and no carry makes up for that
    have first := Nat.mod_lt seconds positive
    have next := Nat.mod_lt (seconds % limit + 1) positive
    by_cases carries : frequency ≤ rest % 2 ^ 16
    · simp only [if_pos carries, Time.ticks]
      unfold frequency at *
      omega
    · simp only [if_neg carries, Time.ticks]
      unfold frequency at *
      omega

/-- A wake-up time is the current time and the delay in ticks, normalised, and a shorter delay does
not end later, exactly if the rest of the delay and that of the current time are less than two
seconds together, of which one is carried, and the seconds do not wrap. -/
theorem wake_time_iff (now time : Time) :
    WakesRight now time ↔ now.msec + time.msec < 200 ∧
      now.sec + time.sec + (now.msec + time.msec) / 100 < 2 ^ 64 := by
  rw [← ticks_iff]
  refine ⟨WakesRight.ticks, fun exact' => ⟨exact', relative_msec now time, fun shorter less => ?_⟩⟩
  rw [exact']
  exact Nat.le_trans (ticks_le now shorter) (Nat.add_le_add_left less _)

theorem wake_time_second : WakesRight ⟨5, 7⟩ (sleepRequest 1150) :=
  (wake_time_iff ⟨5, 7⟩ (sleepRequest 1150)).mpr ⟨by decide, by decide⟩

/-- Two hundred milliseconds end before 199: the carry is one second, however large the sum. -/
theorem longer_sleep_ends_earlier :
    (getRelativeTime ⟨0, 0⟩ (sleepRequest 200)).ticks = 100 ∧
      (getRelativeTime ⟨0, 0⟩ (sleepRequest 199)).ticks = 199 := by decide

end Balrog.Sleepers
