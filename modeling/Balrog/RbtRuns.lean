import Balrog.Runs
import Balrog.RbtInsert
import Balrog.RbtDelete
import Mathlib.Data.List.Nodup

/-!
# Runs of the red-black tree

A run starts from the empty tree and calls `rbt_insert`, `rbt_delete`,
`rbt_delete_key`, and writes of the value of a node, which is how the callers of
`rbt_insert` fill the node they get. Every allocation succeeds and yields an address
no node is at. Next to the store runs the finite map that the same calls build up.

A step reads and writes nodes through `load` and `update`, which fail on null and on
freed addresses, so a step that returns has dereferenced neither.
-/

namespace Balrog.RbtRuns

open Runs RedBlack RbtNodes RbtShape RbtSearch RbtInsert RbtDelete List

/-- The tree in memory, and the map it stands for. -/
structure System where
  store : Store
  map : Nat → Option Nat

/-- The calls of a run. An insertion names the address and the stale value of the
node it would allocate. -/
inductive Call where
  | insert (key fresh garbage : Nat)
  | delete (pointer : Nat)
  | deleteKey (key : Nat)
  | assign (pointer value : Nat)

/-- The map with another value for one key. -/
def assignKey (map : Nat → Option Nat) (key : Nat) (value : Option Nat) : Nat → Option Nat :=
  fun probe => if probe = key then value else map probe

/-- One call on the tree, with what it means for the map. -/
def step (system : System) : Call → Option System
  | .insert key fresh garbage => do
    let (_, store) ← rbtInsert system.store fresh garbage key
    some { store := store, map := assignKey system.map key (some ((system.map key).getD garbage)) }
  | .delete pointer => do
    let node ← load system.store pointer
    let store ← rbtDelete system.store pointer
    some { store := store, map := assignKey system.map node.key none }
  | .deleteKey key => do
    let store ← rbtDeleteKey system.store key
    some { store := store, map := assignKey system.map key none }
  | .assign pointer value => do
    let node ← load system.store pointer
    let store ← update system.store pointer (fun node => { node with value := value })
    some { store := store, map := assignKey system.map node.key (some value) }

/-- A fresh node is at an unused address; only nodes in the tree are deleted or
written. -/
def allowed (system : System) : Call → Prop
  | .insert _ fresh _ => system.store.nodes fresh = none ∧ 0 < fresh ∧ fresh < addresses
  | .delete pointer => system.store.nodes pointer ≠ none
  | .deleteKey _ => True
  | .assign pointer _ => system.store.nodes pointer ≠ none

/-- The runs from the empty tree, which `rbt_init` sets up. -/
def machine : Machine System Call where
  initial system := system = { store := { nodes := fun _ => none, root := 0 }, map := fun _ => none }
  allowed := allowed
  step := step

/-- The map holds exactly the pairs of the tree. -/
def MapOf (map : Nat → Option Nat) (tree : RedBlack.Tree Entry) : Prop :=
  ∀ key value, map key = some value ↔ (key, value) ∈ pairs tree

/-- What holds between calls. -/
def Invariant (system : System) : Prop :=
  ∃ tree, Valid system.store tree ∧ MapOf system.map tree

variable {tree : RedBlack.Tree Entry} {entry : Entry}

theorem pair_mem (member : entry ∈ tree.toList) :
    (entry.key, entry.value) ∈ pairs tree := mem_map_of_mem member

variable {map : Nat → Option Nat}

variable {key fresh garbage pointer : Nat} {tree tree' : RedBlack.Tree Entry} {system : System}

/-- A key without a value has no entry in the tree. -/
theorem map_none (mapOf : MapOf map tree) :
    map key = none ↔ ∀ entry ∈ tree.toList, entry.key ≠ key := by
  rw [Option.eq_none_iff_forall_ne_some]
  constructor
  · rintro absent entry member rfl
    exact absent entry.value ((mapOf _ _).mpr (pair_mem member))
  · intro absent value present
    obtain ⟨entry, member, same⟩ := mem_map.mp ((mapOf key value).mp present)
    exact absent entry member (congrArg Prod.fst same)

/-- The pairs left by a deletion are those with another key. -/
theorem mem_deletes {tree tree' : RedBlack.Tree Entry} (ordered : Ordered tree)
    (deletes : Deletes tree entry tree') (key value : Nat) :
    (key, value) ∈ pairs tree' ↔ (key, value) ∈ pairs tree ∧ key ≠ entry.key := by
  obtain ⟨lower, upper, whole, less⟩ := deletes
  rw [ordered_pairs, whole, pairwise_append, pairwise_cons] at ordered
  obtain ⟨_, ⟨above, _⟩, below⟩ := ordered
  rw [whole, less, mem_append, mem_append, mem_cons]
  constructor
  · rintro (inLower | inUpper)
    · exact ⟨.inl inLower, Nat.ne_of_lt (below _ inLower _ mem_cons_self)⟩
    · exact ⟨.inr (.inr inUpper), Nat.ne_of_gt (above _ inUpper)⟩
  · rintro ⟨inLower | isEntry | inUpper, different⟩
    · exact .inl inLower
    · exact absurd (congrArg Prod.fst isEntry) different
    · exact .inr inUpper

theorem mem_inserts {tree tree' : RedBlack.Tree Entry} {fresh garbage key : Nat} {lower upper : List Entry}
    (whole : tree.toList = lower ++ upper)
    (more : tree'.toList = lower ++ ⟨fresh, key, garbage⟩ :: upper) (probe value : Nat) :
    (probe, value) ∈ pairs tree' ↔ (probe, value) = (key, garbage) ∨ (probe, value) ∈ pairs tree := by
  rw [pairs, pairs, whole, more, map_append, map_append, map_cons, mem_append,
    mem_append, mem_cons]
  exact or_left_comm

/-- Deleting an entry takes its key out of the map. -/
theorem map_deletes (ordered : Ordered tree) (mapOf : MapOf map tree)
    (deletes : Deletes tree entry tree') : MapOf (assignKey map entry.key none) tree' := by
  intro key value
  rw [mem_deletes ordered deletes, ← mapOf key value, assignKey]
  split
  · next same => simp [same]
  · next different => simp [different]

/-- Adding one pair with a new key puts it into the map. -/
theorem map_inserts (mapOf : MapOf map tree)
    (inserts : Inserts tree fresh garbage key pointer tree') :
    MapOf (assignKey map key (some ((map key).getD garbage))) tree' := by
  rcases inserts with ⟨rfl, entry, member, rfl, _⟩ | ⟨missing, _, lower, upper, whole, more⟩
  · have present := (mapOf _ _).mpr (pair_mem member)
    intro probe value
    rw [← mapOf probe value, assignKey]
    split
    · next same => rw [same, present, Option.getD_some]
    · rfl
  · intro probe value
    have absent := (map_none mapOf).mpr missing
    rw [mem_inserts whole more, ← mapOf probe value, assignKey, absent, Option.getD_none]
    split
    · next same => simp [same, absent, eq_comm]
    · next different => simp [different]

variable {store : Store}

section

variable (valid : Valid store tree)
include valid

/-- Every allocated node belongs to an entry. -/
theorem allocated_entry (allocated : store.nodes pointer ≠ none) :
    ∃ entry ∈ tree.toList, entry.address = pointer :=
  mem_map.mp ((represents_allocated valid.represents pointer).mp allocated)

/-- The node of an entry holds its key and its value. -/
theorem entry_load (member : entry ∈ tree.toList) :
    ∃ node, load store entry.address = some node ∧ node.key = entry.key ∧
      node.value = entry.value := by
  obtain ⟨context, color, left, right, rfl⟩ := entry_split tree entry member
  have here : Represents store (plug context (join .left color left entry right)) :=
    valid.represents
  exact ⟨_, represents_load here, image_key _ _ _ _ _ _, image_value _ _ _ _ _ _⟩

theorem mem_less {lower upper : List Entry}
    (whole : tree.toList = lower ++ entry :: upper) (less : tree'.toList = lower ++ upper)
    (other : Entry) : other ∈ tree'.toList ↔ other ∈ tree.toList ∧ other ≠ entry := by
  have once : tree.toList.Nodup := List.Nodup.of_map _ valid.represents.distinct
  rw [whole, nodup_middle, nodup_cons] at once
  rw [whole, less, mem_append, mem_append, mem_cons]
  constructor
  · intro there
    exact ⟨there.imp_right .inr, fun same => once.1 (same ▸ mem_append.mpr there)⟩
  · rintro ⟨inLower | same | inUpper, different⟩
    · exact .inl inLower
    · exact absurd same different
    · exact .inr inUpper

theorem first_single {first : Entry} {rest : List Entry} {node : Node}
    (entries : tree.toList = first :: rest) (read : load store first.address = some node) :
    node.left = 0 := by
  obtain ⟨context, color, left, right, rfl⟩ := entry_split tree first (entries ▸ mem_cons_self)
  have here : Represents store (plug context (join .left color left first right)) :=
    valid.represents
  have distinct : (plug context (join .left color left first right)).toList.Nodup :=
    List.Nodup.of_map _ valid.represents.distinct
  have split : (plug context (join .left color left first right)).toList =
      (before context ++ left.toList) ++ first :: (right.toList ++ after context) := by
    simp [to_list_plug, join, RedBlack.Tree.toList]
  obtain rfl := Option.some.inj ((represents_load here).symm.trans read)
  cases left with
  | leaf => rfl
  | node leftColor a leftEntry b =>
    -- otherwise the first entry would come after those at the left, and before them
    obtain ⟨other, others, isCons⟩ : ∃ other others,
        before context ++ (RedBlack.Tree.node leftColor a leftEntry b).toList =
          other :: others := by
      apply exists_cons_of_ne_nil
      simp [RedBlack.Tree.toList]
    have isFirst : other = first := by
      have heads := split.symm.trans entries
      rw [isCons, cons_append] at heads
      exact (List.cons.inj heads).1
    rw [split, isCons, isFirst, cons_append, nodup_cons] at distinct
    exact absurd (mem_append_right _ mem_cons_self) distinct.1

/-- Writing the value of a node leaves the other nodes and all places as they are. -/
theorem assign_entries (member : entry ∈ tree.toList) (value : Nat) :
    ∃ after tree' lower upper,
      update store entry.address (fun node => { node with value := value }) = some after ∧
      Valid after tree' ∧ tree.toList = lower ++ entry :: upper ∧
      tree'.toList = lower ++ { entry with value := value } :: upper := by
  obtain ⟨context, color, left, right, rfl⟩ := entry_split tree entry member
  have here : Represents store (plug context (join .left color left entry right)) :=
    valid.represents
  have focus := represents_focus here
  have split (entry : Entry) : (plug context (join .left color left entry right)).toList =
      before context ++ left.toList ++ entry :: (right.toList ++ after context) := by
    simp [to_list_plug, join, RedBlack.Tree.toList]
  have ordered : Ordered (plug context (join .left color left entry right)) := valid.ordered
  refine ⟨_, _, _, _, update_eq store _ focus.positive focus.cell,
    ⟨represents_rewrite here color { entry with value := value } rfl, ?_,
      color_plug_black context valid.black (.inr rfl),
      balanced_entry context .left color left right _ valid.balanced⟩, split entry, split _⟩
  rw [Ordered, split, map_append, map_cons] at ordered ⊢
  exact ordered

/-- Writing the value of a node changes the pair with its key. -/
theorem assign_spec (member : entry ∈ tree.toList) (value : Nat) :
    ∃ after tree', update store entry.address (fun node => { node with value := value }) =
        some after ∧ Valid after tree' ∧
      ∀ key probe, (key, probe) ∈ pairs tree' ↔
        if key = entry.key then probe = value else (key, probe) ∈ pairs tree := by
  obtain ⟨after, tree', lower, upper, result, afterValid, whole, assigned⟩ :=
    assign_entries valid member value
  have ordered := (ordered_pairs _).mp valid.ordered
  rw [pairs, whole, map_append, map_cons, pairwise_append,
    pairwise_cons] at ordered
  obtain ⟨_, ⟨above, _⟩, below⟩ := ordered
  refine ⟨after, tree', result, afterValid, fun key probe => ?_⟩
  rw [pairs, pairs, whole, assigned, map_append, map_append, map_cons,
    map_cons, mem_append, mem_append, mem_cons, mem_cons]
  by_cases same : key = entry.key
  · subst same
    rw [if_pos rfl]
    constructor
    · rintro (inLower | isEntry | inUpper)
      · exact absurd (below _ inLower _ mem_cons_self) (Nat.lt_irrefl _)
      · exact congrArg Prod.snd isEntry
      · exact absurd (above _ inUpper) (Nat.lt_irrefl _)
    · rintro rfl
      exact .inr (.inl rfl)
  · rw [if_neg same]
    have notHere (value : Nat) : (key, probe) ≠ (entry.key, value) :=
      fun equal => same (congrArg Prod.fst equal)
    simp only [pair, notHere, false_or]

/-- Writing the value of a node changes the map at its key. -/
theorem assign_invariant (mapOf : MapOf map tree) (member : entry ∈ tree.toList) (value : Nat) :
    ∃ after, update store entry.address (fun node => { node with value := value }) = some after ∧
      Invariant { store := after, map := assignKey map entry.key (some value) } := by
  obtain ⟨after, tree', result, afterValid, members⟩ := assign_spec valid member value
  refine ⟨after, result, tree', afterValid, fun key probe => ?_⟩
  rw [members, ← mapOf key probe]
  simp only [assignKey]
  split
  · exact ⟨fun equal => (Option.some.inj equal).symm, fun equal => congrArg some equal.symm⟩
  · rfl

end

/-- Every call keeps the invariant, and none is stuck. -/
theorem machine_invariant : Inductive machine Invariant where
  starts := by
    rintro system rfl
    refine ⟨.leaf, ⟨⟨rfl, trivial, by simp [places], by simp [places], fun _ _ => rfl⟩,
      by simp [Ordered], rfl, 0, rfl⟩, fun key value => by simp [pairs]⟩
  preserved := by
    rintro system call ⟨tree, valid, mapOf⟩ permitted
    cases call with
    | insert key fresh garbage =>
      obtain ⟨unused, positive, bound⟩ := permitted
      obtain ⟨pointer, after, tree', result, afterValid, inserts⟩ :=
        rbt_insert_spec valid fresh garbage key unused positive bound
      refine ⟨⟨after, assignKey system.map key (some ((system.map key).getD garbage))⟩, ?_, tree',
        afterValid, map_inserts mapOf inserts⟩
      simp only [machine, step, result, Option.bind_eq_bind, Option.bind_some]
    | delete pointer =>
      obtain ⟨entry, member, rfl⟩ := allocated_entry valid permitted
      obtain ⟨node, read, keyIs, _⟩ := entry_load valid member
      obtain ⟨after, tree', result, afterValid, deletes⟩ := rbt_delete_spec valid member
      refine ⟨⟨after, assignKey system.map entry.key none⟩, ?_, tree', afterValid,
        map_deletes valid.ordered mapOf deletes⟩
      simp only [machine, step, read, result, keyIs, Option.bind_eq_bind, Option.bind_some]
    | deleteKey key =>
      rcases rbt_delete_key_spec valid key with
        ⟨entry, member, rfl, after, tree', result, afterValid, deletes⟩ | ⟨missing, result⟩
      · refine ⟨⟨after, assignKey system.map entry.key none⟩, ?_, tree', afterValid,
        map_deletes valid.ordered mapOf deletes⟩
        simp only [machine, step, result, Option.bind_eq_bind, Option.bind_some]
      · have absent := (map_none mapOf).mpr missing
        refine ⟨system, ?_, tree, valid, mapOf⟩
        have same : assignKey system.map key none = system.map := by
          funext probe
          rw [assignKey]
          split
          · next isKey => rw [isKey, absent]
          · rfl
        simp only [machine, step, result, same, Option.bind_eq_bind, Option.bind_some]
    | assign pointer value =>
      obtain ⟨entry, member, rfl⟩ := allocated_entry valid permitted
      obtain ⟨node, read, keyIs, _⟩ := entry_load valid member
      obtain ⟨after, result, holds⟩ := assign_invariant valid mapOf member value
      refine ⟨_, ?_, holds⟩
      simp only [machine, step, read, result, keyIs, Option.bind_eq_bind, Option.bind_some]

/-- `rbt_search` answers as the map: null for a key outside, and otherwise a node
with the key and its value. -/
def SearchAnswers (system : System) : Prop :=
  ∀ key, match system.map key with
    | none => rbtSearch system.store key = some 0
    | some value => ∃ pointer node, rbtSearch system.store key = some pointer ∧
        load system.store pointer = some node ∧ node.key = key ∧ node.value = value

/-- `rbt_minimum` answers as the map: null when it is empty, and otherwise a node
with the least key and its value. -/
def MinimumAnswers (system : System) : Prop :=
  ((∀ key, system.map key = none) ∧ rbtMinimum system.store = some 0) ∨
  ∃ pointer node, rbtMinimum system.store = some pointer ∧
    load system.store pointer = some node ∧ system.map node.key = some node.value ∧
    ∀ key, system.map key ≠ none → node.key ≤ key

/-- A search answers as the map does. -/
theorem search_answers (valid : Valid system.store tree) (mapOf : MapOf system.map tree) :
    SearchAnswers system := by
  intro key
  rcases rbt_search_spec valid key with ⟨entry, member, rfl, result⟩ | ⟨missing, result⟩
  · rw [(mapOf _ _).mpr (pair_mem member)]
    obtain ⟨node, read, keyIs, valueIs⟩ := entry_load valid member
    exact ⟨_, node, result, read, keyIs, valueIs⟩
  · rw [(map_none mapOf).mpr missing]
    exact result

/-- The least node has the least key of the map. -/
theorem minimum_answers (valid : Valid system.store tree) (mapOf : MapOf system.map tree) :
    MinimumAnswers system := by
  rcases rbt_minimum_spec valid with ⟨empty, result⟩ | ⟨first, rest, entries, result⟩
  · exact .inl ⟨fun key => (map_none mapOf).mpr (by simp [empty]), result⟩
  · have member : first ∈ tree.toList := by
      rw [entries]
      exact mem_cons_self
    obtain ⟨node, read, keyIs, valueIs⟩ := entry_load valid member
    refine .inr ⟨_, node, result, read, ?_, ?_⟩
    · rw [keyIs, valueIs]
      exact (mapOf _ _).mpr (pair_mem member)
    · intro key present
      have ordered := valid.ordered
      rw [Ordered, entries, map_cons, pairwise_cons] at ordered
      by_contra smaller
      refine present ((map_none mapOf).mpr ?_)
      rintro entry inside rfl
      rw [entries] at inside
      rcases mem_cons.mp inside with rfl | later
      · exact smaller (Nat.le_of_eq keyIs)
      · exact smaller (keyIs ▸ Nat.le_of_lt (ordered.1 _ (mem_map_of_mem later)))

/-- In every state of every run the store is a red-black search tree with matching
links, `rbt_search` and `rbt_minimum` answer as the map, and every call returns,
without touching null or a freed node. -/
theorem red_black_tree_sound (system : System) (reached : Reachable machine system) :
    (∃ tree, Represents system.store tree ∧ Ordered tree ∧ tree.color = .black ∧
      ∃ height, Balanced tree height ∧ ∀ blacks ∈ tree.pathBlacks, blacks = height) ∧
    SearchAnswers system ∧ MinimumAnswers system ∧
    ∀ call, allowed system call → ∃ after, step system call = some after := by
  obtain ⟨tree, valid, mapOf⟩ := machine_invariant.holds reached
  obtain ⟨height, balanced⟩ := valid.balanced
  exact ⟨⟨tree, valid.represents, valid.ordered, valid.black, height, balanced,
    balanced_path_blacks tree height balanced⟩, search_answers valid mapOf,
    minimum_answers valid mapOf, fun call permitted => machine_invariant.returns reached permitted⟩

/-- The empty tree. -/
def emptyTree : System := { store := { nodes := fun _ => none, root := 0 }, map := fun _ => none }

/-- Keys 5, 3 and 8 are inserted, and 5, which is at the root, is deleted again. -/
def oneKey : System := (step emptyTree (.insert 5 16 50)).get (by decide +kernel)

/-- The tree after its second insertion. -/
def twoKeys : System := (step oneKey (.insert 3 32 30)).get (by decide +kernel)

/-- The tree after its third insertion. -/
def threeKeys : System := (step twoKeys (.insert 8 48 80)).get (by decide +kernel)

/-- The tree after the key of its root has been deleted. -/
def rootDeleted : System := (step threeKeys (.deleteKey 5)).get (by decide +kernel)

/-- After the deletion the tree answers for 3 and 8, and no more for 5. -/
theorem red_black_tree_sound_after_delete :
    rootDeleted.map 3 = some 30 ∧ rootDeleted.map 5 = none ∧ rootDeleted.map 8 = some 80 ∧
    SearchAnswers rootDeleted ∧ MinimumAnswers rootDeleted := by
  have one : Reachable machine oneKey := (Reachable.initial rfl).call (.insert 5 16 50)
    ⟨rfl, by decide, by decide⟩ (Option.some_get _).symm
  have two : Reachable machine twoKeys := one.call (.insert 3 32 30)
    ⟨Option.isNone_iff_eq_none.mp (by decide +kernel), by decide, by decide⟩ (Option.some_get _).symm
  have three : Reachable machine threeKeys := two.call (.insert 8 48 80)
    ⟨Option.isNone_iff_eq_none.mp (by decide +kernel), by decide, by decide⟩ (Option.some_get _).symm
  have deleted : Reachable machine rootDeleted := three.call (.deleteKey 5) trivial
    (Option.some_get _).symm
  obtain ⟨_, searches, minimum, _⟩ := red_black_tree_sound rootDeleted deleted
  exact ⟨by decide +kernel, by decide +kernel, by decide +kernel, searches, minimum⟩

end Balrog.RbtRuns
