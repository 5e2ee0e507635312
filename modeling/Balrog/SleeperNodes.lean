import Balrog.Sleepers

/-!
# The nodes of sleeping processes

`sleep` leaves the node under which it files a process in `sleeper_node`, and killing the process
hands that node to `rbt_delete`. The tree does not keep nodes apart from their contents: a node
with two children is deleted by copying the successor into it and freeing the successor's node, so
the process that is filed there is left with a pointer to freed memory. Two processes that sleep
until the same tick share a node.

The events are those of `Sleepers` and kills of processes that are not dead yet. Of a kill only
the state and the sleeper tree are modelled; its record in memory is not freed.
-/

namespace Balrog.SleeperNodes

open Runs RedBlack RbtNodes RbtShape RbtSearch RbtInsert RbtDelete Sleepers List
open RbtRuns (entry_load mem_less)

/-- `PROCESS_STATE_DEAD` -/
def stateDead : Nat := 3

/-- `remove_sleeper` -/
def removeSleeper (system : System) (pid : Nat) : Option System :=
  let node := (system.processes pid).sleeperNode
  if node = 0 then some system
  else do
    let store ← rbtDelete system.store node
    some { system with
      store := store
      processes := change system.processes pid { system.processes pid with sleeperNode := 0 } }

/-- `__proc_kill` with `clean_process`. -/
def procKill (system : System) (pid : Nat) : Option System :=
  removeSleeper { system with
    processes := change system.processes pid { system.processes pid with state := stateDead } } pid

/-- What happens to the sleepers: the calls of before, or a process is killed. -/
inductive Call where
  | event (call : Sleepers.Call)
  | kill (pid : Nat)

/-- One event of the sleepers. -/
def step (system : System) : Call → Option System
  | .event call => Sleepers.step system call
  | .kill pid => procKill system pid

/-- The events of `Sleepers`, and kills of processes that are not dead. `condition` restricts
both. -/
def allowed (condition : System → Call → Prop) (system : System) (call : Call) : Prop :=
  condition system call ∧
    match call with
    | .event call => Sleepers.allowed (fun _ _ => True) system call
    | .kill pid => (system.processes pid).state ≠ stateDead

/-- The runs from an empty sleeper tree with all processes ready. -/
def machine (condition : System → Call → Prop) : Machine System Call where
  initial system := (Sleepers.machine fun _ _ => True).initial system ∧
    ∀ pid, (system.processes pid).sleeperNode = 0
  allowed := allowed condition
  step := step

/-- The nodes that the pointers reach from the root. -/
inductive InTree (store : Store) : Nat → Prop where
  | root (some' : store.root ≠ 0) : InTree store store.root
  | child {address : Nat} {node : Node} (above : InTree store address)
      (read : load store address = some node) (side : Side) (some' : node.child side ≠ 0) :
      InTree store (node.child side)

/-- Some node of the tree refers to the record. -/
def Filed (system : System) (record : Nat) : Prop :=
  ∃ address node, InTree system.store address ∧ load system.store address = some node ∧
    node.value = record

/-- The node of every sleeping process is in the tree, and its record names the process. -/
def NodesLive (system : System) : Prop :=
  ∀ pid, (system.processes pid).state = stateSleeping →
    InTree system.store (system.processes pid).sleeperNode ∧
    ∃ node time, load system.store (system.processes pid).sleeperNode = some node ∧
      system.sleepers node.value = some { process := pid, time := time }

/-- A kill takes the record of the process, and no other, off the tree. -/
def KillsOwn (system : System) (pid : Nat) : Prop :=
  ∃ after own, step system (.kill pid) = some after ∧
    load system.store (system.processes pid).sleeperNode = some own ∧
    ∀ record, Filed after record ↔ Filed system record ∧ record ≠ own.value

/-- No two processes sleep until the same tick, and the node of a process that is killed has at most
one child. -/
def Single (system : System) : Call → Prop
  | .event (.nanosleep _ time _ _ _) => Distinct system (getRelativeTime system.now time)
  | .event .tick => True
  | .kill pid => ∀ node, load system.store (system.processes pid).sleeperNode = some node →
      node.left = 0 ∨ node.right = 0

variable {node : Node} {pid parent : Nat}

section Nodes

variable {store : Store} {tree : RedBlack.Tree Entry}

theorem subtree_in_tree (tree : RedBlack.Tree Entry) (stored : Stored store.nodes parent tree)
    (positive : ∀ entry ∈ tree.toList, entry.address ≠ 0)
    (root : pointer tree ≠ 0 → InTree store (pointer tree)) {entry : Entry}
    (member : entry ∈ tree.toList) : InTree store entry.address := by
  induction tree generalizing parent with
  | leaf => cases member
  | node color left here right leftHypothesis rightHypothesis =>
    obtain ⟨cell, leftStored, rightStored⟩ := stored
    simp only [RedBlack.Tree.toList, mem_append, mem_cons] at positive member
    have some' := positive here (.inr (.inl rfl))
    have atHere : InTree store here.address := root some'
    have read := load_eq store (Nat.pos_of_ne_zero some') cell
    rcases member with inLeft | rfl | inRight
    · exact leftHypothesis leftStored (fun entry inside => positive entry (.inl inside))
        (fun child => .child atHere read .left child) inLeft
    · exact atHere
    · exact rightHypothesis rightStored (fun entry inside => positive entry (.inr (.inr inside)))
        (fun child => .child atHere read .right child) inRight

/-- Every entry of the tree is the contents of a node in the tree. -/
theorem entry_in_tree (represents : Represents store tree) {entry : Entry}
    (member : entry ∈ tree.toList) : InTree store entry.address := by
  refine subtree_in_tree tree represents.stored (fun other inside => ?_) (fun some' => ?_) member
  · exact Nat.ne_of_gt (represents.valid _ (mem_map_of_mem inside)).1
  · rw [← represents.root] at some' ⊢
    exact .root some'

theorem loaded_entry (valid : Valid store tree) {address : Nat}
    (read : load store address = some node) :
    ∃ entry ∈ tree.toList, entry.address = address ∧ entry.value = node.value := by
  have inside : address ∈ places tree := by
    by_contra outside
    rw [load, valid.represents.only address outside, ite_self] at read
    cases read
  obtain ⟨entry, member, rfl⟩ := mem_map.mp inside
  obtain ⟨node', read', _, isValue⟩ := entry_load valid member
  obtain rfl := Option.some.inj (read'.symm.trans read)
  exact ⟨entry, member, rfl, isValue.symm⟩

end Nodes

/-- The tree is kept, and only processes that sleep have a node. -/
structure Handles (system : System) (tree : RedBlack.Tree Entry) : Prop extends
    Kept system tree where
  awake : Rests system

section Handles

variable {system : System} {tree : RedBlack.Tree Entry}

theorem handles_iff : Handles system tree ↔ Kept system tree ∧ Rests system :=
  ⟨fun handles => ⟨handles.toKept, handles.awake⟩, fun ⟨kept, rests⟩ => ⟨kept, rests⟩⟩

section

variable (handles : Handles system tree)
include handles

theorem Handles.live : NodesLive system := by
  intro pid sleeping
  obtain ⟨entry, member, address, _, _, record⟩ := (handles_iff.mp handles).1.entry sleeping
  obtain ⟨node, read, _, isValue⟩ := entry_load handles.valid member
  rw [← address]
  exact ⟨entry_in_tree handles.valid.represents member, node, _, read, isValue ▸ record⟩

theorem Handles.filed_iff (record : Nat) :
    Filed system record ↔ ∃ entry ∈ tree.toList, entry.value = record := by
  constructor
  · rintro ⟨address, node, _, read, rfl⟩
    obtain ⟨entry, member, _, isValue⟩ := loaded_entry handles.valid read
    exact ⟨entry, member, isValue⟩
  · rintro ⟨entry, member, rfl⟩
    obtain ⟨node, read, _, isValue⟩ := entry_load handles.valid member
    exact ⟨entry.address, node, entry_in_tree handles.valid.represents member, read, isValue⟩

end

theorem procKill_eq (system : System) (pid : Nat) :
    procKill system pid =
      if (system.processes pid).sleeperNode = 0 then
        some { system with processes := change system.processes pid ⟨stateDead, 0⟩ }
      else (rbtDelete system.store (system.processes pid).sleeperNode).map fun store =>
        { system with
          store := store, processes := change system.processes pid ⟨stateDead, 0⟩ } := by
  have once (node : Nat) (process : Process) :
      change (change system.processes pid process) pid ⟨stateDead, node⟩ =
        change system.processes pid ⟨stateDead, node⟩ := by
    funext probe
    simp only [change]
    split <;> rfl
  simp only [procKill, removeSleeper, change_same, once]
  split
  · next none' => rw [none']
  · cases rbtDelete system.store (system.processes pid).sleeperNode <;> rfl

theorem kill_awake (handles : Handles system tree)
    (rests : (system.processes pid).state ≠ stateSleeping) :
    Handles { system with processes := change system.processes pid ⟨stateDead, 0⟩ } tree := by
  have apart {other : Nat} (sleeping : (system.processes other).state = stateSleeping) :
      other ≠ pid := by
    rintro rfl
    exact rests sleeping
  refine ⟨⟨handles.valid, ?_, ?_⟩, Rests.change handles.awake pid _ (fun _ => rfl) _ _ _⟩
  · intro entry member
    obtain ⟨positive, other, record, isKey, proper, sleeping, address⟩ :=
      handles.filed entry member
    refine ⟨positive, other, record, isKey, proper, ?_, ?_⟩
    · simp only [change_other (apart sleeping), sleeping]
    · simp only [change_other (apart sleeping), address]
  · intro other sleeping
    by_cases same : other = pid
    · subst same
      simp only [change_same] at sleeping
      cases sleeping
    · simp only [change_other same] at sleeping
      exact handles.asleep other sleeping

/-- A sleeping process whose node has at most one child is killed. -/
theorem kill_asleep (handles : Handles system tree) (single : Single system (.kill pid))
    (sleeping : (system.processes pid).state = stateSleeping) :
    ∃ after tree' own, procKill system pid = some after ∧ Handles after tree' ∧
      load system.store (system.processes pid).sleeperNode = some own ∧
      ∀ record, Filed after record ↔ Filed system record ∧ record ≠ own.value := by
  obtain ⟨kept, rests⟩ := handles_iff.mp handles
  obtain ⟨entry, member, address, _, _, record⟩ := kept.entry sleeping
  obtain ⟨own, read, _, isValue⟩ := entry_load handles.valid member
  have positive : (system.processes pid).sleeperNode ≠ 0 := by
    rw [← address]
    exact Nat.ne_of_gt (handles.valid.represents.valid _ (mem_map_of_mem member)).1
  obtain ⟨store, tree', lower, upper, deleted, afterValid, whole, less⟩ :=
    rbt_delete_single handles.valid member (address ▸ single)
  have after := handles_iff.mpr ⟨remove_kept kept afterValid whole less record ⟨stateDead, 0⟩
    (by decide) fun _ _ => rfl, rests.change pid ⟨stateDead, 0⟩ (fun _ => rfl) _ _ _⟩
  refine ⟨_, tree', own, ?_, after, address ▸ read, fun value => ?_⟩
  · rw [procKill_eq, if_neg positive, ← address, deleted]
    rfl
  · rw [after.filed_iff, handles.filed_iff, isValue]
    constructor
    · rintro ⟨other, there, rfl⟩
      obtain ⟨old, different⟩ := (mem_less kept.valid whole less other).mp there
      exact ⟨⟨other, old, rfl⟩, fun same => different (kept.value_unique old member same)⟩
    · rintro ⟨⟨other, old, rfl⟩, different⟩
      have there := (mem_less kept.valid whole less other).mpr
        ⟨old, fun same => different (congrArg Entry.value same)⟩
      exact ⟨other, there, rfl⟩

end Handles

/-- Every event under the condition keeps the nodes. -/
theorem handles_inductive :
    Inductive (machine Single) fun system => ∃ tree, Handles system tree where
  starts := by
    rintro system ⟨starts, noNode⟩
    exact ⟨.leaf, handles_iff.mpr ⟨start_kept starts, fun pid _ => noNode pid⟩⟩
  preserved := by
    rintro system call ⟨tree, handles⟩ ⟨condition, permitted⟩
    obtain ⟨kept, rests⟩ := handles_iff.mp handles
    cases call with
    | event call =>
      cases call with
      | nanosleep pid time fresh garbage record =>
        obtain ⟨after, result, ⟨tree', afterKept⟩, afterRests⟩ :=
          sleep_kept kept permitted condition
        exact ⟨after, result, tree', handles_iff.mpr ⟨afterKept, afterRests rests⟩⟩
      | tick =>
        obtain ⟨after, result, ⟨tree', afterKept⟩, _, afterRests⟩ := tick_kept kept
        exact ⟨after, result, tree', handles_iff.mpr ⟨afterKept, afterRests rests⟩⟩
    | kill pid =>
      by_cases sleeping : (system.processes pid).state = stateSleeping
      · obtain ⟨after, tree', _, result, afterHandles, _⟩ := kill_asleep handles condition sleeping
        exact ⟨after, result, tree', afterHandles⟩
      · refine ⟨_, ?_, tree, kill_awake handles sleeping⟩
        change procKill system pid = _
        rw [procKill_eq, if_pos (handles.awake pid sleeping)]

/-- In every run whose events all meet the condition, the nodes of sleeping processes are live, and
a kill that meets it takes only the record of its process off the tree. -/
theorem nodes_live (system : System) (reached : Reachable (machine Single) system) :
    NodesLive system ∧ ∀ pid, (system.processes pid).state = stateSleeping →
      Single system (.kill pid) → KillsOwn system pid := by
  obtain ⟨tree, handles⟩ := handles_inductive.holds reached
  refine ⟨handles.live, fun pid sleeping single => ?_⟩
  obtain ⟨after, _, own, result, _, read, filed⟩ := kill_asleep handles single sleeping
  exact ⟨after, own, result, read, filed⟩

/-- A process sleeps for some ticks, with its node at one address and its record at another. -/
def sleeps (pid node record : Nat) : Call := .event (.nanosleep pid ⟨0, pid⟩ node 0 record)

/-- Processes 1, 2 and 3 sleep; the node of 2 is the root, with the others as children. -/
def asleepOne : System := (step start (sleeps 1 16 100)).get (by decide +kernel)

/-- Two processes sleep. -/
def asleepTwo : System := (step asleepOne (sleeps 2 32 101)).get (by decide +kernel)

/-- Three processes sleep. -/
def asleepThree : System := (step asleepTwo (sleeps 3 48 102)).get (by decide +kernel)

/-- Two processes sleep, and the one at the root can be killed: its node has one child. -/
theorem nodes_live_two : NodesLive asleepTwo ∧ KillsOwn asleepTwo 1 := by
  have starts : Reachable (machine Single) start :=
    .initial ⟨⟨rfl, fun _ => rfl, fun _ => rfl⟩, fun _ => rfl⟩
  have one : Reachable (machine Single) asleepOne := by
    refine starts.call (sleeps 1 16 100) ⟨⟨by decide, fun pid sleeping => ?_⟩, rfl, rfl, by decide,
      by decide, rfl, by decide, trivial⟩ (Option.some_get _).symm
    cases sleeping
  have two : Reachable (machine Single) asleepTwo := by
    refine one.call (sleeps 2 32 101) ⟨⟨by decide +kernel, fun pid _ => ?_⟩, by decide +kernel,
      by decide +kernel, by decide, by decide,
      Option.isNone_iff_eq_none.mp (by decide +kernel), by decide, trivial⟩ (Option.some_get _).symm
    have asked : asleepOne.requested pid = change start.requested 1 ⟨0, 1⟩ pid :=
      congrFun (sleep_requested (Option.some_get (by decide +kernel)).symm) pid
    rw [asked, change]
    split
    · decide +kernel
    · exact show (⟨0, 0⟩ : Time) ≠ _ by decide +kernel
  have live := nodes_live asleepTwo two
  refine ⟨live.1, live.2 1 (by decide +kernel) fun node read => ?_⟩
  have single : (load asleepTwo.store (asleepTwo.processes 1).sleeperNode).all
      (fun node => node.left = 0 ∨ node.right = 0) = true := by decide +kernel
  rw [read] at single
  exact of_decide_eq_true single

/-- The second of the three sleepers has been killed. -/
def killedTwo : System := (step asleepThree (.kill 2)).get (by decide +kernel)

/-- The node of process 3 is freed when process 2 is killed, and process 3 keeps its address. -/
theorem kill_dangles : Reachable (machine fun _ _ => True) killedTwo ∧
    (killedTwo.processes 3).state = stateSleeping ∧ (killedTwo.processes 3).sleeperNode = 48 ∧
    load killedTwo.store 48 = none ∧ ¬ NodesLive killedTwo := by
  have starts : Reachable (machine fun _ _ => True) start :=
    .initial ⟨⟨rfl, fun _ => rfl, fun _ => rfl⟩, fun _ => rfl⟩
  have one : Reachable (machine fun _ _ => True) asleepOne :=
    starts.call (sleeps 1 16 100) ⟨trivial, rfl, rfl, by decide, by decide, rfl, by decide, trivial⟩
      (Option.some_get _).symm
  have two : Reachable (machine fun _ _ => True) asleepTwo :=
    one.call (sleeps 2 32 101) ⟨trivial, by decide +kernel, by decide +kernel, by decide, by decide,
      Option.isNone_iff_eq_none.mp (by decide +kernel), by decide, trivial⟩ (Option.some_get _).symm
  have three : Reachable (machine fun _ _ => True) asleepThree :=
    two.call (sleeps 3 48 102) ⟨trivial, by decide +kernel, by decide +kernel, by decide, by decide,
      Option.isNone_iff_eq_none.mp (by decide +kernel), by decide, trivial⟩ (Option.some_get _).symm
  have killed : Reachable (machine fun _ _ => True) killedTwo := by
    refine three.call (.kill 2) ⟨trivial, ?_⟩ (Option.some_get _).symm
    change (asleepThree.processes 2).state ≠ stateDead
    decide +kernel
  have sleeping : (killedTwo.processes 3).state = stateSleeping := by decide +kernel
  have node : (killedTwo.processes 3).sleeperNode = 48 := by decide +kernel
  have freed : load killedTwo.store 48 = none := by decide +kernel
  refine ⟨killed, sleeping, node, freed, fun live => ?_⟩
  obtain ⟨_, found, _, read, _⟩ := live 3 sleeping
  rw [node, freed] at read
  cases read

end Balrog.SleeperNodes
