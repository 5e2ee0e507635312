import Balrog.LongestPrefix
import Balrog.Runs
import Balrog.VfsPaths

/-!
# Mount points in the virtual file system

The mount points form a tree of nodes, each with the name of a part of a path, and some of them
with a device. A path is resolved by walking down the tree as far as its parts lead; the last node
with a device on the way gets the path, without the parts that led to that node. A mount walks
down in the same way, creates the nodes that are missing, and stores the device in the last one.

A pointer to a node is the list of names that lead to it from the root, and a change behind a
pointer a change of the tree. At the end of a path the walk looks for a child with an empty name,
as the source does, and there is none. Left out: the capacity of the arrays of children, which are
lists, the lock, and `device->path`.
-/

namespace Balrog.VfsMounts

open Function LongestPrefix Runs VfsPaths List Option

/-- A device by its number; only which one it is matters here. -/
abbrev Device := Nat

/-- The values of `type`, with 0 for one that is not set. -/
inductive NodeType where
  | unset
  | directory
  | file
deriving DecidableEq, Repr

/-- `vfs_node_t` -/
structure Node where
  name : Text
  type : NodeType
  device : Option Device
  depth : Nat
  children : List Node

/-- The first child with a name. -/
def Node.child? (node : Node) (name : Text) : Option Node :=
  node.children.find? fun child => child.name == name

/-- A node and the names that lead to it from the root. -/
structure Lookup where
  node : Node
  above : List Text

/-- The loop of `__vfs_find_mount`. -/
def findFrom (node : Node) (above : List Text) (found : Lookup) (text : Text) : Lookup :=
  match _isChild : node.child? (nextPart text) with
  | none => found
  | some child =>
    findFrom child (above ++ [nextPart text])
      (if child.device.isSome then ⟨child, above ++ [nextPart text]⟩ else found)
      (skipSlash (afterPart text))
termination_by sizeOf node
decreasing_by
  have smaller := List.sizeOf_lt_of_mem (List.mem_of_find?_eq_some _isChild)
  cases node
  simp only [Node.mk.sizeOf_spec] at smaller ⊢
  omega

/-- `__vfs_find_mount` -/
def findMount (root : Node) (path : Text) : Lookup :=
  if root.children = [] then ⟨root, []⟩
  else if path = [] then ⟨root, []⟩
  else if path = ['/'] then ⟨root, []⟩
  else findFrom root [] ⟨root, []⟩ (skipSlash path)

/-- The device of a path and the path on it, as the calls of the VFS find them. -/
def resolve (root : Node) (cwd : Option Text) (path : Text) : Option Device × Text :=
  let sanitized := sanitizePath (absolutePath cwd path)
  let lookup := findMount root sanitized
  (lookup.node.device, getRootPath lookup.node.depth sanitized)

/-- A node that `__vfs_insert_nodes` creates. -/
def newNode (name : Text) (depth : Nat) : Node where
  name := name
  type := .directory
  device := none
  depth := depth
  children := []

/-- The children with another node for the first of a name. -/
def replaceFirst (name : Text) (node : Node) : List Node → List Node
  | [] => []
  | first :: rest =>
    if first.name == name then node :: rest else first :: replaceFirst name node rest

/-- The node with another child of a name. -/
def Node.setChild (node : Node) (name : Text) (child : Node) : Node :=
  { node with children := replaceFirst name child node.children }

/-- The loop of `__vfs_insert_nodes` over the parts of the path, with what the caller does to the
node that is returned: whether it succeeds, and the node that the loop started at. -/
def insertNodes (use : Node → Bool × Node) (node : Node) (depth : Nat) (created : Bool) :
    List Text → Bool × Node
  | [] => use (if created then { node with type := .unset } else node)
  | part :: rest =>
    if depth + 1 > node.depth then
      match node.child? part with
      | some child =>
        if child.type ≠ .directory then (false, node)
        else
          let (done, child) := insertNodes use child (depth + 1) created rest
          (done, node.setChild part child)
      | none =>
        let (done, child) := insertNodes use (newNode part (depth + 1)) (depth + 1) true rest
        (done, { node with children := node.children ++ [child] })
    else insertNodes use node (depth + 1) created rest

/-- The change of the node at the end of a path of names, with what the change returns. -/
def Node.modifyAt (change : Node → Bool × Node) (node : Node) : List Text → Bool × Node
  | [] => change node
  | name :: rest =>
    match node.child? name with
    | none => (false, node)
    | some child =>
      let (done, child) := child.modifyAt change rest
      (done, node.setChild name child)

/-- What `__vfs_mount` does with the node of the path. -/
def mountNode (device : Device) (node : Node) : Bool × Node :=
  if node.type ≠ .unset ∧ node.type ≠ .directory then (false, node)
  else (true, { node with type := .directory, device := some device })

/-- `__vfs_mount`: whether it returns 0, and the tree. -/
def mount (root : Node) (cwd : Option Text) (path : Text) (device : Device) : Bool × Node :=
  let sanitized := sanitizePath (absolutePath cwd path)
  root.modifyAt (fun node => insertNodes (mountNode device) node 0 false (parts sanitized))
    (findMount root sanitized).above

/-- The loop of `__vfs_find_mount` again, for `last_search_node`. -/
def searchFrom (node : Node) (text : Text) : Node :=
  match _isChild : node.child? (nextPart text) with
  | none => node
  | some child => searchFrom child (skipSlash (afterPart text))
termination_by sizeOf node
decreasing_by
  have smaller := List.sizeOf_lt_of_mem (List.mem_of_find?_eq_some _isChild)
  cases node
  simp only [Node.mk.sizeOf_spec] at smaller ⊢
  omega

/-- `last_search_node` of `__vfs_find_mount` -/
def lastSearchNode (root : Node) (path : Text) : Node :=
  if root.children = [] then root
  else if path = [] then root
  else if path = ['/'] then root
  else searchFrom root (skipSlash path)

/-- What `__vfs_add_vfs_node` does with the node of the path. -/
def vfsNode (vfsDevice : Device) (type : NodeType) (node : Node) : Bool × Node :=
  (true, { node with type := type, device := some vfsDevice })

/-- `__vfs_add_vfs_node`: whether it returns a node, and the tree. A path with a slash at the end
is for directories; a node that is there already must have the type. -/
def addVfsNode (root : Node) (cwd : Option Text) (path : Text) (vfsDevice : Device)
    (type : NodeType) : Bool × Node :=
  let sanitized := sanitizePath (absolutePath cwd path)
  if sanitized.getLast? = some '/' ∧ type ≠ .directory then (false, root)
  else
    let trimmed := if sanitized.getLast? = some '/' then sanitized.dropLast else sanitized
    let depth := 1 + (trimmed.drop 1).count '/'
    let found := lastSearchNode root sanitized
    if depth = found.depth then (decide (found.type = type), root)
    else
      root.modifyAt (fun node => insertNodes (vfsNode vfsDevice type) node 0 false (parts trimmed))
        (findMount root sanitized).above

/-- The tree that `vfs_init` makes. -/
def vfsInit (device : Device) : Node where
  name := ['/']
  type := .directory
  device := some device
  depth := 0
  children := []

/-- Every node has the depth of its place, and every child a name. -/
inductive Formed : Nat → Node → Prop where
  | node {depth : Nat} {node : Node} (isDepth : node.depth = depth)
      (named : ∀ child ∈ node.children, child.name ≠ [])
      (below : ∀ child ∈ node.children, Formed (depth + 1) child) : Formed depth node

/-- The node at the end of a path of names. -/
def Node.reach (node : Node) : List Text → Option Node
  | [] => some node
  | name :: rest => (node.child? name).bind fun child => child.reach rest

/-- The mount table: the device at the node of a list of names. -/
def Node.deviceAt (node : Node) (names : List Text) : Option Device :=
  (node.reach names).bind Node.device

/-! ### Nodes -/

variable {target old after node probe child root first second : Node} {nodes : List Node}
  {depth : Nat} {text path : Text} {rootDevice device vfsDevice : Device}
  {use change : Node → Bool × Node} {result : Bool × Node}

section Tree

variable {name : Text}

theorem Formed.depth_eq (formed : Formed depth node) : node.depth = depth := by
  cases formed with
  | node isDepth _ _ => exact isDepth

theorem Formed.named (formed : Formed depth node) : ∀ child ∈ node.children, child.name ≠ [] := by
  cases formed with
  | node _ named _ => exact named

theorem Formed.deeper (formed : Formed depth node) :
    ∀ child ∈ node.children, Formed (depth + 1) child := by
  cases formed with
  | node _ _ below => exact below

/-- A child that is found is one of the children and has the name. -/
theorem child?_mem (isChild : node.child? name = some child) :
    child ∈ node.children ∧ child.name = name := by
  have named := find?_some isChild
  exact ⟨mem_of_find?_eq_some isChild, by simpa using named⟩

variable {names : List Text}

/-- A node that a path of names leads to is well formed at its depth. -/
theorem Formed.reach (formed : Formed depth node) (reached : node.reach names = some target) :
    Formed (depth + names.length) target := by
  induction names generalizing node depth with
  | nil =>
    obtain rfl := Option.some.inj reached
    exact formed
  | cons name rest ih =>
    obtain ⟨child, isChild, further⟩ := bind_eq_some_iff.mp reached
    have result := ih (formed.deeper child (child?_mem isChild).1) further
    rwa [length_cons, Nat.add_comm rest.length, ← Nat.add_assoc]

/-- The nodes before the first one of a name, and those behind it. -/
theorem replaceFirst_split (isFirst : nodes.find? (fun node => node.name == name) = some old) :
    ∃ front back, nodes = front ++ old :: back ∧ (∀ node ∈ front, node.name ≠ name) ∧
      old.name = name ∧ ∀ child, replaceFirst name child nodes = front ++ child :: back := by
  obtain ⟨isName, front, back, rfl, others⟩ := find?_eq_some_iff_append.mp isFirst
  refine ⟨front, back, rfl, fun node inside => by simpa using others node inside,
    by simpa using isName, fun child => ?_⟩
  clear isFirst
  induction front with
  | nil => exact if_pos isName
  | cons first front ih =>
    obtain ⟨here, later⟩ := forall_mem_cons.mp others
    rw [cons_append, replaceFirst, if_neg (by simpa using here), ih later, cons_append]

/-- Replacing a child changes what is found under its name and under no other. -/
theorem find?_replaceFirst (isFirst : nodes.find? (fun node => node.name == name) = some old)
    (named : child.name = name) (probe : Text) :
    (replaceFirst name child nodes).find? (fun node => node.name == probe) =
      if probe = name then some child else nodes.find? fun node => node.name == probe := by
  obtain ⟨front, back, rfl, others, isName, replaced⟩ := replaceFirst_split isFirst
  rw [replaced, find?_append, find?_append]
  by_cases same : probe = name
  · have none' : front.find? (fun node => node.name == name) = none :=
      find?_eq_none.mpr fun node inside => by simpa using others node inside
    rw [same, none', if_pos rfl, find?_cons_of_pos (by simpa using named)]
    rfl
  · rw [if_neg same, find?_cons_of_neg (by simpa [named] using Ne.symm same),
      find?_cons_of_neg (by simpa [isName] using Ne.symm same)]

/-- The children after one was exchanged. -/
theorem child?_setChild (isChild : node.child? name = some old) (named : child.name = name)
    (probe : Text) :
    (node.setChild name child).child? probe =
      if probe = name then some child else node.child? probe :=
  find?_replaceFirst isChild named probe

/-- Putting a child back where it was changes nothing. -/
theorem setChild_same (isChild : node.child? name = some child) :
    node.setChild name child = node := by
  obtain ⟨front, back, isChildren, _, _, replaced⟩ := replaceFirst_split isChild
  rw [Node.setChild, replaced, ← isChildren]
  cases node
  rfl

/-- Replacing a child brings in no node but the new one. -/
theorem mem_replaceFirst (isFirst : nodes.find? (fun node => node.name == name) = some old)
    (member : probe ∈ replaceFirst name child nodes) : probe = child ∨ probe ∈ nodes := by
  obtain ⟨front, back, rfl, _, _, replaced⟩ := replaceFirst_split isFirst
  rw [replaced, mem_append, mem_cons] at member
  rcases member with before | here | behind
  · exact .inr (mem_append_left _ before)
  · exact .inl here
  · exact .inr (mem_append_right _ (mem_cons_of_mem _ behind))

/-- A well formed child keeps its parent well formed. -/
theorem Formed.setChild (formed : Formed depth node) (isChild : node.child? name = some old)
    (named : child.name ≠ [])
    (isFormed : Formed (depth + 1) child) : Formed depth (node.setChild name child) := by
  refine .node formed.depth_eq (fun probe member => ?_) fun probe member => ?_
  · rcases mem_replaceFirst isChild member with rfl | old
    · exact named
    · exact formed.named probe old
  · rcases mem_replaceFirst isChild member with rfl | old
    · exact isFormed
    · exact formed.deeper probe old

/-- A new child at the end keeps its parent well formed. -/
theorem Formed.append (formed : Formed depth node) (named : child.name ≠ [])
    (isFormed : Formed (depth + 1) child) :
    Formed depth { node with children := node.children ++ [child] } := by
  refine .node formed.depth_eq ?_ ?_
  · exact forall_mem_append.mpr ⟨formed.named, forall_mem_singleton.mpr named⟩
  · exact forall_mem_append.mpr ⟨formed.deeper, forall_mem_singleton.mpr isFormed⟩

/-- The children after one was added under a name that was not there. -/
theorem child?_append (absent : node.child? name = none) (named : child.name = name)
    (probe : Text) :
    ({ node with children := node.children ++ [child] } : Node).child? probe =
      if probe = name then some child else node.child? probe := by
  rw [Node.child?, find?_append]
  by_cases same : probe = name
  · rw [Node.child?] at absent
    simp [same, absent, named]
  · simp [same, named, Ne.symm same, Node.child?]

@[simp] theorem deviceAt_nil : node.deviceAt [] = node.device := rfl

/-- The device of a path is that of the rest of the path in the child. -/
theorem deviceAt_cons (name : Text) (rest : List Text) :
    node.deviceAt (name :: rest) = (node.child? name).bind fun child => child.deviceAt rest :=
  bind_assoc _ _ _

/-- One changed child changes the mount table below its name. -/
theorem deviceAt_update {value : Option Device} (sameDevice : after.device = node.device)
    (children : ∀ probe, after.child? probe = if probe = name then some child
      else node.child? probe) (before : ∀ rest, node.deviceAt (name :: rest) = old.deviceAt rest)
    (changed : child.deviceAt = update old.deviceAt names value) :
    after.deviceAt = update node.deviceAt (name :: names) value := by
  funext probe
  cases probe with
  | nil => rw [update_of_ne (cons_ne_nil _ _).symm, deviceAt_nil, deviceAt_nil, sameDevice]
  | cons first rest =>
    by_cases same : first = name
    · subst same
      rw [deviceAt_cons, children, if_pos rfl, bind_some, changed]
      by_cases here : rest = names
      · rw [here, update_self, update_self]
      · have different : first :: rest ≠ first :: names := fun equal => here (List.cons.inj equal).2
        rw [update_of_ne here, update_of_ne different, before]
    · have different : first :: rest ≠ name :: names := fun equal => same (List.cons.inj equal).1
      rw [update_of_ne different, deviceAt_cons, deviceAt_cons, children, if_neg same]

end Tree

/-! ### The walk -/

/-- The loop of the lookup over the parts of a path, with the last device that it has passed. -/
def walk (node : Node) (above : List Text) (found : Lookup) : List Text → Lookup
  | [] => found
  | part :: rest =>
    match node.child? part with
    | none => found
    | some child =>
      walk child (above ++ [part])
        (if child.device.isSome then ⟨child, above ++ [part]⟩ else found) rest

/-- No child has an empty name. -/
theorem Formed.child?_nil (formed : Formed depth node) : node.child? [] = none := by
  cases isChild : node.child? [] with
  | none => rfl
  | some child =>
    obtain ⟨member, named⟩ := child?_mem isChild
    exact absurd named (formed.named child member)

/-- The lookup stops where no child has the name of the next part. -/
theorem findFrom_none (above : List Text) (found : Lookup)
    (absent : node.child? (nextPart text) = none) : findFrom node above found text = found := by
  rw [findFrom]
  split
  · rfl
  · next isChild =>
    rw [absent] at isChild
    cases isChild

/-- The lookup goes on in the child, whose device, if it has one, replaces what was found. -/
theorem findFrom_some (above : List Text) (found : Lookup)
    (isChild : node.child? (nextPart text) = some child) :
    findFrom node above found text = findFrom child (above ++ [nextPart text])
      (if child.device.isSome then ⟨child, above ++ [nextPart text]⟩ else found)
      (skipSlash (afterPart text)) := by
  rw [findFrom]
  split
  · next absent =>
    rw [absent] at isChild
    cases isChild
  · next isOther =>
    obtain rfl := Option.some.inj (isOther.symm.trans isChild)
    rfl

/-- The loop of the source walks over the parts of the text. -/
theorem findFrom_eq (text : Text) {node : Node} {depth : Nat} (formed : Formed depth node)
    (above : List Text) (found : Lookup) :
    findFrom node above found text = walk node above found (partsFrom text) := by
  fun_induction partsFrom text generalizing node depth above found with
  | case1 text empty =>
    rw [walk]
    exact findFrom_none above found (by rw [empty, formed.child?_nil])
  | case2 text nonempty ih =>
    rw [walk]
    cases isChild : node.child? (nextPart text) with
    | none => exact findFrom_none above found isChild
    | some child =>
      rw [findFrom_some above found isChild]
      exact ih (formed.deeper child (child?_mem isChild).1) _ _

/-- The early returns of `__vfs_find_mount` agree with the walk. -/
theorem findMount_eq (formed : Formed depth root) (path : Text) :
    findMount root path = walk root [] ⟨root, []⟩ (parts path) := by
  rw [findMount]
  split_ifs with none empty slash
  · cases parts path with
    | nil => rfl
    | cons part rest =>
      have absent : root.child? part = Option.none := by rw [Node.child?, none, find?_nil]
      rw [walk, absent]
  · rw [empty, parts, partsFrom]
    rfl
  · rw [slash, parts, partsFrom]
    rfl
  · exact findFrom_eq (skipSlash path) formed [] ⟨root, []⟩

/-- The walk ends with the device of the longest known path, or with what it began with. -/
def WalkEnds (node : Node) (above : List Text) (found : Lookup) (names : List Text)
    (result : Lookup) : Prop :=
  match longest node.deviceAt names with
  | none => result = found
  | some (device, rest) => ∃ known target, names = known ++ rest ∧
      node.reach known = some target ∧ target.device = some device ∧
      result = ⟨target, above ++ known⟩

variable {names : List Text}

/-- Where nothing deeper has a device, the walk stays with what it has found. -/
theorem walkEnds_here {above : List Text} {found : Lookup}
    (start : node.device.isSome → found = ⟨node, above⟩)
    (here : longest node.deviceAt names = node.device.map fun device => (device, names)) :
    WalkEnds node above found names found := by
  rw [WalkEnds, here]
  cases isDevice : node.device with
  | none => rfl
  | some device =>
    refine ⟨[], node, rfl, rfl, isDevice, ?_⟩
    rw [append_nil]
    exact start (by rw [isDevice]; rfl)

/-- The walk ends at the longest path that has a device. The induction is on the names; what was
found so far is the node itself wherever that has a device. -/
theorem walk_ends (names : List Text) (node : Node) (above : List Text) (found : Lookup)
    (start : node.device.isSome → found = ⟨node, above⟩) :
    WalkEnds node above found names (walk node above found names) := by
  induction names generalizing node above found with
  | nil => exact walkEnds_here start rfl
  | cons name rest ih =>
    have below : (fun keys => node.deviceAt (name :: keys)) =
        fun keys => (node.child? name).bind fun child => child.deviceAt keys := by
      funext keys
      exact deviceAt_cons name keys
    rw [walk]
    cases isChild : node.child? name with
    | none =>
      refine walkEnds_here start ?_
      have nothing : longest (fun keys => node.deviceAt (name :: keys)) rest = none := by
        rw [below, isChild]
        exact longest_eq_none.mpr fun _ _ => rfl
      rw [longest, nothing, none_or]
      rfl
    | some child =>
      have further := ih child (above ++ [name])
        (if child.device.isSome then ⟨child, above ++ [name]⟩ else found) fun some => if_pos some
      have same : longest (fun keys => node.deviceAt (name :: keys)) rest =
          longest child.deviceAt rest := by
        rw [below, isChild]
        rfl
      rw [WalkEnds] at further
      cases deeper : longest child.deviceAt rest with
      | none =>
        rw [deeper] at further
        have noDevice : child.device = none := longest_eq_none.mp deeper [] nil_prefix
        simp only [noDevice, isSome_none, Bool.false_eq_true, if_false] at further
        simp only [noDevice, isSome_none, Bool.false_eq_true, if_false, further]
        refine walkEnds_here start ?_
        rw [longest, same, deeper, none_or]
        rfl
      | some result =>
        obtain ⟨device, remaining⟩ := result
        rw [deeper] at further
        obtain ⟨known, target, split, reached, isDevice, isResult⟩ := further
        rw [WalkEnds, longest, same, deeper, some_or]
        refine ⟨name :: known, target, by rw [split, cons_append], ?_, isDevice, ?_⟩
        · rw [Node.reach, isChild]
          exact reached
        · refine isResult.trans ?_
          rw [append_assoc, singleton_append]

/-- The lookup finds the device of the longest mounted path in front of the given one. -/
theorem findMount_spec (formed : Formed 0 root) (isDevice : root.device = some rootDevice)
    (path : Text) :
    ∃ known rest target device, parts path = known ++ rest ∧
      longest root.deviceAt (parts path) = some (device, rest) ∧
      root.reach known = some target ∧ target.device = some device ∧
      findMount root path = ⟨target, known⟩ := by
  have ends := walk_ends (parts path) root [] ⟨root, []⟩ fun _ => rfl
  rw [WalkEnds, ← findMount_eq formed] at ends
  cases found : longest root.deviceAt (parts path) with
  | none =>
    have noDevice : root.device = none := longest_eq_none.mp found [] nil_prefix
    rw [isDevice] at noDevice
    cases noDevice
  | some result =>
    obtain ⟨device, rest⟩ := result
    rw [found] at ends
    obtain ⟨known, target, split, reached, hasDevice, isResult⟩ := ends
    exact ⟨known, rest, target, device, split, rfl, reached, hasDevice, isResult⟩

/-! ### Insertion -/

section Insertion

/-- The parts that lead to a node are passed over. -/
theorem insertNodes_skip (use : Node → Bool × Node) (created : Bool) (known rest : List Text)
    (depth : Nat) (isDepth : node.depth = depth + known.length) :
    insertNodes use node depth created (known ++ rest) =
      insertNodes use node node.depth created rest := by
  induction known generalizing depth with
  | nil => rw [isDepth, length_nil, Nat.add_zero, nil_append]
  | cons name known ih =>
    rw [length_cons] at isDepth
    rw [cons_append, insertNodes, if_neg (by omega)]
    exact ih (depth + 1) (by omega)

/-- What the callers of `__vfs_insert_nodes` do with the node: they store a device and a type, or
refuse a node that has a type. -/
structure Places (device : Device) (use : Node → Bool × Node) : Prop where
  refused : ∀ node, (use node).1 = false → (use node).2 = node ∧ node.type ≠ .unset
  stored : ∀ node, (use node).1 = true → ∃ type,
    (use node).2 = { node with type := type, device := some device }

/-- Mounting stores the device in a directory or in a node without a type, and refuses any other. -/
theorem mountNode_places (device : Device) : Places device (mountNode device) where
  refused := by
    intro node isRefused
    rw [mountNode] at isRefused ⊢
    split at isRefused
    · next other =>
      rw [if_pos other]
      exact ⟨rfl, other.1⟩
    · cases isRefused
  stored := by
    intro node isStored
    rw [mountNode] at isStored ⊢
    split at isStored
    · cases isStored
    · next accepted =>
      rw [if_neg accepted]
      exact ⟨.directory, rfl⟩

/-- Adding a node of the VFS stores its device in any case. -/
theorem vfsNode_places (vfsDevice : Device) (type : NodeType) :
    Places vfsDevice (vfsNode vfsDevice type) where
  refused := by
    intro node isRefused
    cases isRefused
  stored _ _ := ⟨type, rfl⟩

/-- The node after a device has been mounted below it: that path has changed and no other. -/
structure Mounted (device : Device) (names : List Text) (depth : Nat) (node after : Node) :
    Prop where
  name : after.name = node.name
  table : after.deviceAt = update node.deviceAt names (some device)
  formed : Formed depth after

/-- Storing the device in a node mounts it at the empty path. -/
theorem stored_mounted (formed : Formed depth node) (type : NodeType) :
    Mounted device [] depth node { node with type := type, device := some device } := by
  refine ⟨rfl, ?_, .node formed.depth_eq formed.named formed.deeper⟩
  funext names
  cases names with
  | nil => rw [update_self, deviceAt_nil]
  | cons name rest =>
    rw [update_of_ne (cons_ne_nil _ _), deviceAt_cons, deviceAt_cons]
    rfl

theorem newNode_formed (name : Text) (depth : Nat) : Formed depth (newNode name depth) :=
  .node rfl (fun _ member => absurd member not_mem_nil)
    fun _ member => absurd member not_mem_nil

/-- Nothing is mounted below a new node. -/
theorem newNode_deviceAt (name : Text) (depth : Nat) (names : List Text) :
    (newNode name depth).deviceAt names = none := by
  cases names with
  | nil => rfl
  | cons first rest => rfl

variable (places : Places device use)

include places

/-- Below a new node the path is created, and nothing fails. -/
theorem insertNodes_new (names : List Text) (name : Text) (depth : Nat) :
    (insertNodes use (newNode name depth) depth true names).1 = true := by
  induction names generalizing name depth with
  | nil =>
    rw [insertNodes, if_pos rfl, ← Bool.not_eq_false]
    intro isRefused
    exact (places.refused _ isRefused).2 rfl
  | cons first rest ih =>
    have below : depth + 1 > (newNode name depth).depth := Nat.lt_succ_self depth
    rw [insertNodes, if_pos below]
    exact ih first (depth + 1)

/-- A mount that fails has created nothing. -/
theorem insertNodes_failed (failed : (insertNodes use node depth false names).1 = false) :
    (insertNodes use node depth false names).2 = node := by
  induction names generalizing node depth with
  | nil =>
    simp only [insertNodes, Bool.false_eq_true, if_false] at failed ⊢
    exact (places.refused node failed).1
  | cons name rest ih =>
    rw [insertNodes] at failed ⊢
    split at failed
    · next below =>
      rw [if_pos below]
      cases isChild : node.child? name with
      | none =>
        rw [isChild] at failed
        exact absurd ((insertNodes_new places rest name (depth + 1)).symm.trans failed) (by decide)
      | some child =>
        simp only [isChild] at failed ⊢
        split at failed
        · next other => rw [if_pos other]
        · next isDirectory =>
          rw [if_neg isDirectory, ih failed]
          exact setChild_same isChild
    · next above =>
      rw [if_neg above]
      exact ih failed

/-- A mount that succeeds has stored the device at the end of the path. -/
theorem insertNodes_mounted (nonempty : ∀ name ∈ names, name ≠ []) (formed : Formed depth node)
    (created : Bool) (done : (insertNodes use node depth created names).1 = true) :
    Mounted device names depth node (insertNodes use node depth created names).2 := by
  induction names generalizing node depth created with
  | nil =>
    rw [insertNodes] at done ⊢
    obtain ⟨type, isStored⟩ := places.stored _ done
    rw [isStored]
    cases created with
    | true => exact stored_mounted formed type
    | false => exact stored_mounted formed type
  | cons name rest ih =>
    have further := (forall_mem_cons.mp nonempty).2
    have below : depth + 1 > node.depth := formed.depth_eq ▸ Nat.lt_succ_self _
    rw [insertNodes, if_pos below] at done ⊢
    cases isChild : node.child? name with
    | none =>
      simp only [isChild] at done ⊢
      have mounted := ih further (newNode_formed name (depth + 1)) true done
      have named := mounted.name
      refine ⟨rfl, ?_, formed.append ?_ mounted.formed⟩
      · refine deviceAt_update rfl (child?_append isChild named) (fun rest => ?_) mounted.table
        rw [deviceAt_cons, isChild, newNode_deviceAt]
        rfl
      · rw [named]
        exact nonempty name mem_cons_self
    | some child =>
      simp only [isChild] at done ⊢
      split at done
      · cases done
      · next isDirectory =>
        rw [if_neg isDirectory]
        obtain ⟨member, isName⟩ := child?_mem isChild
        have mounted := ih further (formed.deeper child member) created done
        have named := mounted.name.trans isName
        refine ⟨rfl, ?_, formed.setChild isChild ?_ mounted.formed⟩
        · refine deviceAt_update rfl (child?_setChild isChild named) (fun rest => ?_)
            mounted.table
          rw [deviceAt_cons, isChild]
          rfl
        · rw [named]
          exact nonempty name mem_cons_self

omit places

/-- A change behind a pointer succeeds or fails as it does at the node. -/
theorem modifyAt_done {change : Node → Bool × Node} {known : List Text} {node target : Node}
    (reached : node.reach known = some target) :
    (node.modifyAt change known).1 = (change target).1 ∧
      ((change target).2 = target → (node.modifyAt change known).2 = node) := by
  induction known generalizing node with
  | nil =>
    obtain rfl := Option.some.inj reached
    exact ⟨rfl, id⟩
  | cons name rest ih =>
    obtain ⟨child, isChild, further⟩ := bind_eq_some_iff.mp reached
    obtain ⟨done, same⟩ := ih further
    simp only [Node.modifyAt, isChild]
    refine ⟨done, fun unchanged => ?_⟩
    rw [same unchanged]
    exact setChild_same isChild

/-- A mount behind a pointer is a mount in the tree. -/
theorem modifyAt_mounted {known names : List Text} (formed : Formed depth node)
    (reached : node.reach known = some target)
    (mounted : Mounted device names (depth + known.length) target (change target).2) :
    Mounted device (known ++ names) depth node (node.modifyAt change known).2 := by
  induction known generalizing node depth with
  | nil =>
    obtain rfl := Option.some.inj reached
    exact mounted
  | cons name rest ih =>
    obtain ⟨child, isChild, further⟩ := bind_eq_some_iff.mp reached
    obtain ⟨member, isName⟩ := child?_mem isChild
    rw [length_cons, Nat.add_comm rest.length, ← Nat.add_assoc] at mounted
    have below := ih (formed.deeper child member) further mounted
    have named := below.name.trans isName
    simp only [Node.modifyAt, isChild]
    refine ⟨rfl, ?_, formed.setChild isChild ?_ below.formed⟩
    · refine deviceAt_update rfl (child?_setChild isChild named) (fun rest => ?_) below.table
      rw [deviceAt_cons, isChild]
      rfl
    · rw [named, ← isName]
      exact formed.named child member

end Insertion

/-- A tree whose nodes are well formed and whose root has a device. -/
structure Tree (root : Node) : Prop where
  formed : Formed 0 root
  device : root.device.isSome

/-- A tree in which a device has been mounted is well formed. -/
theorem Mounted.tree (tree : Tree root) (mounted : Mounted device names 0 root after) :
    Tree after := by
  refine ⟨mounted.formed, ?_⟩
  rw [← deviceAt_nil, mounted.table]
  by_cases atRoot : names = []
  · rw [atRoot, update_self]
    rfl
  · rw [update_of_ne (Ne.symm atRoot)]
    exact tree.device

/-- Inserting nodes from the deepest known mount on either leaves the tree alone or mounts the
device at the components of the path and nowhere else. -/
theorem placed_spec (tree : Tree root) (places : Places device use)
    (isResult : result = root.modifyAt (fun node => insertNodes use node 0 false (parts path))
      (findMount root path).above) :
    (result.1 = false → result.2 = root) ∧
      (result.1 = true → Mounted device (parts path) 0 root result.2) := by
  obtain ⟨rootDevice, isDevice⟩ := isSome_iff_exists.mp tree.device
  obtain ⟨known, rest, target, _, split, _, reached, _, found⟩ :=
    findMount_spec tree.formed isDevice path
  have isTarget := tree.formed.reach reached
  have isDepth := isTarget.depth_eq
  have nonempty : ∀ name ∈ rest, name ≠ [] := fun name member =>
    partsFrom_nonempty name (by rw [← parts, split]; exact mem_append_right known member)
  have skipped := insertNodes_skip use false known rest 0 isDepth
  obtain ⟨done, unchanged⟩ := @modifyAt_done
    (fun node => insertNodes use node 0 false (known ++ rest)) _ _ _ reached
  rw [found, split] at isResult
  rw [split, isResult]
  refine ⟨fun failed => unchanged ?_, fun succeeded => modifyAt_mounted tree.formed reached ?_⟩
  · rw [done] at failed
    exact insertNodes_failed places failed
  · rw [done, skipped] at succeeded
    simp only [skipped]
    rw [isDepth] at succeeded ⊢
    exact insertNodes_mounted places nonempty isTarget false succeeded

/-- A mount that fails changes nothing; one that succeeds changes the device of its path only. -/
theorem mount_spec (tree : Tree root) (cwd : Option Text) (path : Text) (device : Device) :
    ((mount root cwd path device).1 = false → (mount root cwd path device).2 = root) ∧
      ((mount root cwd path device).1 = true →
        Mounted device (components (absolutePath cwd path)) 0 root
          (mount root cwd path device).2) := by
  rw [← parts_sanitizePath]
  exact placed_spec tree (mountNode_places device) rfl

/-- Inserting nodes keeps the tree well formed, whether it succeeds or not. -/
theorem placed_tree (tree : Tree root) (places : Places device use)
    (isResult : result = root.modifyAt (fun node => insertNodes use node 0 false (parts path))
      (findMount root path).above) : Tree result.2 := by
  obtain ⟨failure, success⟩ := placed_spec tree places isResult
  cases done : result.1 with
  | false =>
    rw [failure done]
    exact tree
  | true => exact (success done).tree tree

/-- Mounting keeps the tree well formed. -/
theorem Tree.mount (tree : Tree root) (cwd : Option Text) (path : Text) (device : Device) :
    Tree (mount root cwd path device).2 :=
  placed_tree tree (mountNode_places device) rfl

/-- Adding a node keeps the tree well formed. -/
theorem Tree.addVfsNode (tree : Tree root) (cwd : Option Text) (path : Text) (vfsDevice : Device)
    (type : NodeType) :
    Tree (addVfsNode root cwd path vfsDevice type).2 := by
  simp only [VfsMounts.addVfsNode, parts_trimmed]
  -- only the depth still speaks of the trimmed text
  generalize 1 + (List.drop 1 _).count '/' = depth
  split
  · exact tree
  · split
    · exact tree
    · exact placed_tree tree (vfsNode_places vfsDevice type) rfl

/-- The tree at startup is well formed. -/
theorem vfsInit_tree (device : Device) : Tree (vfsInit device) :=
  ⟨.node rfl (fun _ member => absurd member not_mem_nil)
    fun _ member => absurd member not_mem_nil, rfl⟩

/-- How a path is resolved by the mount table. -/
theorem resolve_eq (tree : Tree root) (cwd : Option Text) (path : Text) :
    ∃ known rest device, components (absolutePath cwd path) = known ++ rest ∧
      longest root.deviceAt (components (absolutePath cwd path)) = some (device, rest) ∧
      resolve root cwd path =
        (some device, getRootPath known.length (sanitizePath (absolutePath cwd path))) := by
  obtain ⟨rootDevice, isDevice⟩ := isSome_iff_exists.mp tree.device
  obtain ⟨known, rest, target, device, split, isLongest, reached, hasDevice, found⟩ :=
    findMount_spec tree.formed isDevice (sanitizePath (absolutePath cwd path))
  rw [parts_sanitizePath] at split isLongest
  have isDepth := (tree.formed.reach reached).depth_eq
  rw [Nat.zero_add] at isDepth
  exact ⟨known, rest, device, split, isLongest, by rw [resolve, found, hasDevice, isDepth]⟩

/-- The calls that change the tree of mounts. -/
inductive Call where
  | mount (cwd : Option Text) (path : Text) (device : Device)
  | addVfs (cwd : Option Text) (path : Text) (type : NodeType)

/-- The runs from the tree of `vfs_init`. -/
def machine (rootDevice vfsDevice : Device) : Machine Node Call where
  initial root := root = vfsInit rootDevice
  allowed _ _ := True
  step root
    | .mount cwd path device => some (mount root cwd path device).2
    | .addVfs cwd path type => some (addVfsNode root cwd path vfsDevice type).2

/-- The tree is well formed throughout a run. -/
theorem tree_inductive (rootDevice vfsDevice : Device) :
    Inductive (machine rootDevice vfsDevice) Tree where
  starts := by
    rintro _ rfl
    exact vfsInit_tree rootDevice
  preserved := by
    rintro root call tree _
    cases call with
    | mount cwd path device => exact ⟨_, rfl, tree.mount cwd path device⟩
    | addVfs cwd path type => exact ⟨_, rfl, tree.addVfsNode cwd path vfsDevice type⟩

/-- In every run, a path goes to the device of the longest list of names on it that has one, with
the components behind these names. -/
theorem reachable_resolves (reached : Reachable (machine rootDevice vfsDevice) root)
    (cwd : Option Text) (path : Text) :
    ∃ device rest, resolve root cwd path = (some device, rest) ∧
      longest root.deviceAt (components (absolutePath cwd path)) =
        some (device, components rest) := by
  have tree := (tree_inductive rootDevice vfsDevice).holds reached
  obtain ⟨known, rest, device, split, isLongest, result⟩ := resolve_eq tree cwd path
  obtain ⟨remaining, _⟩ := getRootPath_spec split
  exact ⟨device, _, result, by rw [remaining]; exact isLongest⟩

theorem reachable_resolves_mounted :
    ∃ device rest, resolve (mount (vfsInit 1) none ['m'] 2).2 none ['m'] = (some device, rest) := by
  have start : Reachable (machine 1 3) _ := .initial rfl
  obtain ⟨device, rest, result, _⟩ :=
    reachable_resolves (start.call (.mount none ['m'] 2) trivial rfl) none ['m']
  exact ⟨device, rest, result⟩

/-- Two trees that find the same resolve a path in the same way. -/
theorem resolve_congr (isFirst : Tree first) (isSecond : Tree second) {cwd : Option Text}
    (same : longest first.deviceAt (components (absolutePath cwd path)) =
      longest second.deviceAt (components (absolutePath cwd path))) :
    resolve first cwd path = resolve second cwd path := by
  obtain ⟨known, rest, device, split, isLongest, result⟩ := resolve_eq isFirst cwd path
  obtain ⟨otherKnown, otherRest, other, otherSplit, otherLongest, otherResult⟩ :=
    resolve_eq isSecond cwd path
  have equal := Option.some.inj (isLongest.symm.trans (same.trans otherLongest))
  obtain ⟨rfl, rfl⟩ := Prod.mk.inj equal
  have sameKnown := append_cancel_right (split.symm.trans otherSplit)
  rw [result, otherResult, sameKnown]

/-- A path belongs to a mount point: the mount point is a prefix of it by whole components, and
no device is mounted deeper on the path. -/
def Belongs (root : Node) (point path : Text) : Prop :=
  Governs root.deviceAt (components point) (components path)

/-- A path goes to a device with the components behind the mount point, as a slash when there are
none; only an empty path is passed on as it is. -/
def GoesTo (root : Node) (cwd : Option Text) (path point : Text) (device : Device) : Prop :=
  ∃ rest, resolve root cwd path = (some device, rest) ∧
    components (absolutePath cwd path) = components point ++ components rest ∧
    (components rest = [] → absolutePath cwd path ≠ [] → rest = ['/'])

/-- In every tree, a mount that succeeds moves exactly the paths that belong to its mount point,
and a mount that fails changes nothing. -/
theorem mount_resolves {root : Node} (tree : Tree root) (cwd : Option Text) (point : Text)
    (device : Device) (cwdThen : Option Text) (path : Text) :
    ((mount root cwd point device).1 = true →
      (Belongs root (absolutePath cwd point) (absolutePath cwdThen path) →
        GoesTo (mount root cwd point device).2 cwdThen path (absolutePath cwd point) device) ∧
      (¬ Belongs root (absolutePath cwd point) (absolutePath cwdThen path) →
        resolve (mount root cwd point device).2 cwdThen path = resolve root cwdThen path)) ∧
    ((mount root cwd point device).1 = false →
      resolve (mount root cwd point device).2 cwdThen path = resolve root cwdThen path) := by
  obtain ⟨failure, success⟩ := mount_spec tree cwd point device
  have after := tree.mount cwd point device
  refine ⟨fun done => ⟨fun belongs => ?_, fun other => ?_⟩, fun failed => by rw [failure failed]⟩
  · obtain ⟨behind, split, last⟩ := belongs
    obtain ⟨known, rest, found, isSplit, isLongest, result⟩ := resolve_eq after cwdThen path
    rw [(success done).table, split, longest_update_governed device last] at isLongest
    obtain ⟨rfl, rfl⟩ := Prod.mk.inj (Option.some.inj isLongest)
    obtain ⟨remaining, slash⟩ := getRootPath_spec isSplit
    refine ⟨_, result, ?_, fun none nonempty => slash (remaining.symm.trans none) nonempty⟩
    rw [remaining]
    exact split
  · refine resolve_congr after tree ?_
    rw [(success done).table]
    exact longest_update_other device other

/-- The device on `/m` gets `/m/a`. -/
theorem mount_resolves_init :
    (mount (vfsInit 1) none ['/', 'm'] 2).1 = true ∧
      GoesTo (mount (vfsInit 1) none ['/', 'm'] 2).2 none ['/', 'm', '/', 'a'] ['/', 'm'] 2 := by
  have done : (mount (vfsInit 1) none ['/', 'm'] 2).1 = true := by decide +kernel
  have belongs : Belongs (vfsInit 1) ['/', 'm'] ['/', 'm', '/', 'a'] := by
    have point : components ['/', 'm'] = [['m']] := by decide +kernel
    refine ⟨[['a']], by decide +kernel, fun more _ _ => ?_⟩
    rw [point]
    rfl
  exact ⟨done, ((mount_resolves (vfsInit_tree 1) none ['/', 'm'] 2 none
    ['/', 'm', '/', 'a']).1 done).1 belongs⟩

/-- The empty path belongs to a device on the root, which gets an empty text and not a slash. -/
theorem empty_path_kept :
    (mount (vfsInit 1) none ['/'] 2).1 = true ∧ Belongs (vfsInit 1) ['/'] [] ∧
      components [] = components ['/'] ∧
      resolve (mount (vfsInit 1) none ['/'] 2).2 none [] = (some 2, []) := by
  refine ⟨by decide +kernel, ⟨[], by decide +kernel, fun more nonempty isPrefix => ?_⟩,
    by decide +kernel, by decide +kernel⟩
  exact absurd (prefix_nil.mp isPrefix) nonempty

end Balrog.VfsMounts
