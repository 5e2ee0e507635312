import Balrog.RedBlack
import Mathlib.Algebra.Group.Nat.Defs

/-!
# The red-black tree of the kernel library

`klib/data_structure/rbt.c` keeps an ordered map as linked nodes with parent
pointers. The nodes live in a store from addresses to nodes; reading or writing
through a null pointer or a pointer to a freed node yields nothing, which no later
step repairs. Every function below is the C function over that store, with its
loops bounded by the number of addresses.

Locking, the unused `rbt_leftmost` field and the debug printing are left out.
`rbt_create_node` receives the address `vmalloc` returned and the bytes found in
the value field, which it does not assign.
-/

namespace Balrog.RbtNodes

open RedBlack

/-- `rbt_node`. Direction 0 is `RBT_LEFT` and 1 is `RBT_RIGHT`. -/
structure Node where
  key : Nat
  value : Nat
  color : Color
  parent : Nat
  left : Nat
  right : Nat
deriving DecidableEq, Repr

/-- `node->children[dir]` -/
def Node.child (node : Node) : Side → Nat
  | .left => node.left
  | .right => node.right

/-- `node->children[dir] = address` -/
def Node.setChild (node : Node) (dir : Side) (address : Nat) : Node :=
  match dir with
  | .left => { node with left := address }
  | .right => { node with right := address }

/-- The nodes in memory and the root pointer of one tree. -/
structure Store where
  nodes : Nat → Option Node
  root : Nat

/-- No loop visits more nodes than there are addresses. -/
def addresses : Nat := 2 ^ 64

/-- Read the node behind a pointer. -/
def load (store : Store) (address : Nat) : Option Node :=
  if address = 0 then none else store.nodes address

/-- The cells with another one at an address. -/
def put (nodes : Nat → Option Node) (address : Nat) (cell : Option Node) : Nat → Option Node :=
  fun probe => if probe = address then cell else nodes probe

/-- Write through a pointer. -/
def update (store : Store) (address : Nat) (change : Node → Node) : Option Store := do
  let node ← load store address
  some { store with nodes := put store.nodes address (some (change node)) }

/-- `RBT_IS_RED` -/
def isRed (store : Store) (address : Nat) : Option Bool :=
  if address = 0 then some false else do
    let node ← load store address
    some (node.color == .red)

/-- `RBT_GET_DIR`: the side of its parent a node is at. -/
def getDir (store : Store) (address : Nat) : Option Side := do
  let node ← load store address
  let parent ← load store node.parent
  some (if address = parent.child .right then .right else .left)

/-- `rbt_create_node` -/
def createNode (store : Store) (fresh garbage parent key : Nat) : Option Store :=
  if fresh = 0 then none
  else some { store with
    nodes := put store.nodes fresh (some
      { key := key, value := garbage, color := .red, parent := parent, left := 0, right := 0 }) }

/-- The loop of `rbt_search`. -/
def searchLoop : Nat → Store → Nat → Nat → Option Nat
  | 0, _, _, _ => none
  | fuel + 1, store, current, key =>
    if current = 0 then some 0
    else do
      let node ← load store current
      if node.key = key then some current
      else searchLoop fuel store (node.child (if node.key < key then .right else .left)) key

/-- `rbt_search` -/
def rbtSearch (store : Store) (key : Nat) : Option Nat :=
  searchLoop addresses store store.root key

/-- The walk to the least node below a start, with fuel for its steps. -/
def leftmost : Nat → Store → Nat → Option Nat
  | 0, _, _ => none
  | fuel + 1, store, start => do
    let node ← load store start
    if node.child .left = 0 then some start else leftmost fuel store (node.child .left)

/-- `rbt_minimum` -/
def rbtMinimum (store : Store) : Option Nat :=
  if store.root = 0 then some 0 else leftmost addresses store store.root

/-- `if(child) child->parent = parent;` -/
def adopt (store : Store) (child parent : Nat) : Option Store :=
  if child ≠ 0 then update store child (fun node => { node with parent := parent })
  else some store

/-- Put `pivot` in the place of `rotating` below a parent, or at the root. -/
def relink (store : Store) (parent rotating pivot : Nat) (dir : Side) : Option Store :=
  if parent = 0 then some { store with root := pivot }
  else do
    let parentNode ← load store parent
    if rotating = parentNode.child dir then
      update store parent (fun node => node.setChild dir pivot)
    else update store parent (fun node => node.setChild dir.flip pivot)

/-- `__rotate` -/
def rotate (store : Store) (rotating : Nat) (dir : Side) : Option Store := do
  let node ← load store rotating
  let pivot := node.child dir.flip
  let pivotNode ← load store pivot
  let store ← update store rotating (fun node => node.setChild dir.flip (pivotNode.child dir))
  let store ← adopt store (pivotNode.child dir) rotating
  let node ← load store rotating
  let store ← update store pivot (fun pivotNode => { pivotNode with parent := node.parent })
  let store ← relink store node.parent rotating pivot dir
  let store ← update store pivot (fun pivotNode => pivotNode.setChild dir rotating)
  update store rotating (fun node => { node with parent := pivot })

/-- The store after the colour of a node has been written. -/
def paint (store : Store) (address : Nat) (color : Color) : Option Store :=
  update store address (fun node => { node with color := color })

/-- `root->rbt_root->color = RBT_BLACK`, behind the loop of `__insert_fixup`. -/
def blackenRoot (store : Store) : Option Store := paint store store.root .black

/-- One pass through the body of `__insert_fixup`, for a red node with a red parent:
the store and the node the loop goes on with. -/
def insertFixupBody (store : Store) (ptr : Nat) : Option (Store × Nat) := do
  let node ← load store ptr
  let parentPtr := node.parent
  let parentNode ← load store parentPtr
  let grandParentPtr := parentNode.parent
  let dir ← getDir store parentPtr
  let grandParentNode ← load store grandParentPtr
  let unclePtr := grandParentNode.child dir.flip
  let uncleRed ← isRed store unclePtr
  if uncleRed then
    let store ← paint store parentPtr .black
    let store ← paint store unclePtr .black
    let store ← paint store grandParentPtr .red
    some (store, grandParentPtr)
  else
    let (store, ptr, parentPtr) ←
      if ptr = parentNode.child dir.flip then do
        let store ← rotate store parentPtr dir
        let turned ← load store parentPtr
        some (store, parentPtr, turned.parent)
      else some (store, ptr, parentPtr)
    let node ← load store ptr
    let above ← load store node.parent
    let store ← rotate store above.parent dir.flip
    let parentNode ← load store parentPtr
    let grandParentNode ← load store grandParentPtr
    let store ← paint store parentPtr grandParentNode.color
    let store ← paint store grandParentPtr parentNode.color
    some (store, parentPtr)

/-- `__insert_fixup` -/
def insertFixup : Nat → Store → Nat → Option Store
  | 0, _, _ => none
  | fuel + 1, store, ptr =>
    if ptr = store.root then blackenRoot store
    else do
      let node ← load store ptr
      if node.color = .black then blackenRoot store
      else
        let parentNode ← load store node.parent
        if parentNode.color = .red then
          let (store, ptr) ← insertFixupBody store ptr
          insertFixup fuel store ptr
        else blackenRoot store

/-- The descent of `rbt_insert`: a node with the key, or the parent and the side for
a new one. -/
def insertLoop : Nat → Store → Nat → Nat → Side → Nat → Option (Nat ⊕ Nat × Side)
  | 0, _, _, _, _, _ => none
  | fuel + 1, store, current, parent, dir, key =>
    if current = 0 then some (.inr (parent, dir))
    else do
      let node ← load store current
      if node.key = key then some (.inl current)
      else
        let dir := if node.key < key then Side.right else Side.left
        insertLoop fuel store (node.child dir) current dir key

/-- `rbt_insert`, with the node it returns. -/
def rbtInsert (store : Store) (fresh garbage key : Nat) : Option (Nat × Store) :=
  if store.root = 0 then do
    let store ← createNode store fresh garbage 0 key
    let store := { store with root := fresh }
    let store ← paint store store.root .black
    some (store.root, store)
  else do
    match ← insertLoop addresses store store.root 0 .left key with
    | .inl found => some (found, store)
    | .inr (parent, dir) =>
      let store ← createNode store fresh garbage parent key
      let store ← if parent ≠ 0 then
          update store parent (fun node => node.setChild dir fresh)
        else some store
      let store ← insertFixup addresses store fresh
      some (fresh, store)

/-- `__delete_fixup` -/
def deleteFixup : Nat → Store → Nat → Side → Option Store
  | 0, _, _, _ => none
  | fuel + 1, store, entry, dir =>
    if entry = 0 then some store
    else do
      let entryNode ← load store entry
      let sibling := entryNode.child dir.flip
      if ← isRed store sibling then
        let store ← rotate store entry dir
        let store ← paint store entry .red
        let store ← paint store sibling .black
        deleteFixup fuel store entry dir
      else
        let siblingNode ← load store sibling
        if ← isRed store (siblingNode.child dir.flip) then
          let store ← paint store (siblingNode.child dir.flip) .black
          let store ← paint store sibling entryNode.color
          let store ← paint store entry .black
          rotate store entry dir
        else if ← isRed store (siblingNode.child dir) then
          let store ← paint store (siblingNode.child dir) .black
          let store ← paint store sibling .red
          let store ← rotate store sibling dir.flip
          deleteFixup fuel store entry dir
        else if entryNode.color = .red then
          let store ← paint store entry .black
          paint store sibling .red
        else
          let store ← paint store sibling .red
          let dir ← if entryNode.parent ≠ 0 then getDir store entry else some dir
          deleteFixup fuel store entryNode.parent dir

/-- `vmfree` of a node. -/
def freeNode (store : Store) (address : Nat) : Store :=
  { store with nodes := put store.nodes address none }

/-- Put the child of a node in the node's place, at its parent or at the root, and
note the side. -/
def unlink (store : Store) (parent toDelete promoted : Nat) : Option (Store × Side) :=
  if parent = 0 then some ({ store with root := promoted }, .left)
  else do
    let dir ← getDir store toDelete
    let store ← update store parent (fun node => node.setChild dir promoted)
    some (store, dir)

/-- The second half of `rbt_delete`: take a node with at most one child out of the
tree. -/
def removeNode (store : Store) (toDelete : Nat) : Option Store := do
  let node ← load store toDelete
  let promoted := node.child (if node.child .left = 0 then .right else .left)
  let (store, dir) ← unlink store node.parent toDelete promoted
  let store ← adopt store promoted node.parent
  let promotedRed ← isRed store promoted
  if (node.color == .red) ≠ promotedRed then
    let store ←
      if node.color = .black then
        update store promoted (fun child =>
          { child with color := if child.color = .red then .black else .red })
      else some store
    some (freeNode store toDelete)
  else
    let store := freeNode store toDelete
    let store ←
      if node.parent ≠ 0 then update store node.parent (fun parent => parent.setChild dir 0)
      else some store
    deleteFixup addresses store node.parent dir

/-- `rbt_delete` -/
def rbtDelete (store : Store) (toDelete : Nat) : Option Store :=
  if toDelete = 0 then some store
  else do
    let node ← load store toDelete
    if node.child .left ≠ 0 ∧ node.child .right ≠ 0 then
      let successor ← leftmost addresses store (node.child .right)
      let successorNode ← load store successor
      let store ← update store toDelete (fun node =>
        { node with key := successorNode.key, value := successorNode.value })
      removeNode store successor
    else removeNode store toDelete

/-- `rbt_delete_key` -/
def rbtDeleteKey (store : Store) (key : Nat) : Option Store := do
  let found ← rbtSearch store key
  rbtDelete store found

end Balrog.RbtNodes
