import Balrog.RbtNodes

/-!
# Trees in the node store

`Represents` ties a store to a tree: the root pointer, every node with its color,
key and value, the child pointers and the parent pointer that matches them, and no
other node. A node of the tree is reached through the context above it, so reading
and writing one node, and a rotation, are each one lemma that names the context.

The rotation passes through stores that represent no tree. Its proof cuts the store
into the context, the three subtrees and the two nodes turned, and carries the
pieces through the writes; a write outside a piece leaves it alone.
-/

namespace Balrog.RbtShape

open RedBlack RbtNodes
open List hiding rotate

/-- What a node of the tree holds besides its color. -/
structure Entry where
  address : Nat
  key : Nat
  value : Nat
deriving DecidableEq, Repr

/-- The address of the root of a tree, zero for a leaf. -/
def pointer : RedBlack.Tree Entry → Nat
  | .leaf => 0
  | .node _ _ entry _ => entry.address

@[simp] theorem pointer_leaf : pointer .leaf = 0 := rfl

@[simp] theorem pointer_join (side : Side) (color : Color) (inner outer : RedBlack.Tree Entry)
    (entry : Entry) : pointer (join side color inner entry outer) = entry.address := by
  cases side <;> rfl

@[simp] theorem pointer_fill (frame : Frame Entry) (tree : RedBlack.Tree Entry) :
    pointer (frame.fill tree) = frame.entry.address :=
  pointer_join frame.side frame.color tree frame.sibling frame.entry

/-- The node in memory for an entry, with its child at `side` named first. -/
def image (side : Side) (color : Color) (entry : Entry) (parent inner outer : Nat) : Node :=
  match side with
  | .left => { key := entry.key, value := entry.value, color := color, parent := parent,
               left := inner, right := outer }
  | .right => { key := entry.key, value := entry.value, color := color, parent := parent,
                left := outer, right := inner }

section Image

variable (side : Side) (color : Color) (entry : Entry) (parent inner outer : Nat)

/-- A node in memory seen from its other side. -/
theorem image_flip : image side.flip color entry parent inner outer =
    image side color entry parent outer inner := by cases side <;> rfl

@[simp] theorem image_child : (image side color entry parent inner outer).child side = inner := by
  cases side <;> rfl

@[simp] theorem image_child_flip :
    (image side color entry parent inner outer).child side.flip = outer := by cases side <;> rfl

@[simp] theorem image_color : (image side color entry parent inner outer).color = color := by
  cases side <;> rfl

@[simp] theorem image_key : (image side color entry parent inner outer).key = entry.key := by
  cases side <;> rfl

@[simp] theorem image_value : (image side color entry parent inner outer).value = entry.value := by
  cases side <;> rfl

@[simp] theorem image_parent : (image side color entry parent inner outer).parent = parent := by
  cases side <;> rfl

@[simp] theorem image_set_child (address : Nat) :
    (image side color entry parent inner outer).setChild side address =
      image side color entry parent address outer := by cases side <;> rfl

@[simp] theorem image_set_child_flip (address : Nat) :
    (image side color entry parent inner outer).setChild side.flip address =
      image side color entry parent inner address := by cases side <;> rfl

theorem image_set_parent (address : Nat) :
    { image side color entry parent inner outer with parent := address } =
      image side color entry address inner outer := by cases side <;> rfl

theorem image_set_color (other : Color) :
    { image side color entry parent inner outer with color := other } =
      image side other entry parent inner outer := by cases side <;> rfl

end Image

/-- The nodes in memory spell the tree, parent pointers included. -/
def Stored (nodes : Nat → Option Node) : Nat → RedBlack.Tree Entry → Prop
  | _, .leaf => True
  | parent, .node color left entry right =>
      nodes entry.address =
        some (image .left color entry parent (pointer left) (pointer right)) ∧
      Stored nodes entry.address left ∧ Stored nodes entry.address right

/-- The pointer to the node just above a hole. -/
def above : List (Frame Entry) → Nat
  | [] => 0
  | frame :: _ => frame.entry.address

@[simp] theorem above_cons (frame : Frame Entry) (rest : List (Frame Entry)) :
    above (frame :: rest) = frame.entry.address := rfl

/-- The side of the frame above a hole, if there is one. -/
def headSide : List (Frame Entry) → Side → Side
  | [], outside => outside
  | frame :: _, _ => frame.side

/-- The nodes of a context whose hole holds a given pointer. -/
def Holds (nodes : Nat → Option Node) : List (Frame Entry) → Nat → Prop
  | [], _ => True
  | frame :: rest, hole =>
      nodes frame.entry.address = some
        (image frame.side frame.color frame.entry (above rest) hole (pointer frame.sibling)) ∧
      Stored nodes frame.entry.address frame.sibling ∧ Holds nodes rest frame.entry.address

/-- The addresses of the nodes of a tree. -/
def places (tree : RedBlack.Tree Entry) : List Nat := tree.toList.map Entry.address

/-- The addresses of the nodes around a place of the tree. -/
def contextPlaces : List (Frame Entry) → List Nat
  | [] => []
  | frame :: rest => frame.entry.address :: places frame.sibling ++ contextPlaces rest

@[simp] theorem stored_join (nodes : Nat → Option Node) (parent : Nat) (side : Side)
    (color : Color) (inner outer : RedBlack.Tree Entry) (entry : Entry) :
    Stored nodes parent (join side color inner entry outer) ↔
      nodes entry.address = some (image side color entry parent (pointer inner) (pointer outer)) ∧
      Stored nodes entry.address inner ∧ Stored nodes entry.address outer := by
  cases side with
  | left => rfl
  | right => exact and_congr_right fun _ => and_comm

/-- The nodes of a filled context are those of the context and of the tree. -/
theorem stored_plug (nodes : Nat → Option Node) (context : List (Frame Entry))
    (tree : RedBlack.Tree Entry) :
    Stored nodes 0 (plug context tree) ↔
      Holds nodes context (pointer tree) ∧ Stored nodes (above context) tree := by
  induction context generalizing tree with
  | nil => simp [Holds, above]
  | cons frame rest ih =>
    rw [plug_cons, ih]
    simp only [pointer_join, stored_join, Holds, above_cons]
    constructor
    · rintro ⟨outside, here, inner, sibling⟩
      exact ⟨⟨here, sibling, outside⟩, inner⟩
    · rintro ⟨⟨here, sibling, outside⟩, inner⟩
      exact ⟨outside, here, inner, sibling⟩

/-- The addresses of a node and its subtrees, up to their order. -/
theorem places_join (side : Side) (color : Color) (inner outer : RedBlack.Tree Entry) (entry : Entry) :
    (places (join side color inner entry outer)).Perm
      (entry.address :: (places inner ++ places outer)) := by
  cases side with
  | left => simp [places, join, RedBlack.Tree.toList]
  | right =>
    simp only [places, join, RedBlack.Tree.toList, map_append, map_cons]
    exact perm_middle.trans (List.Perm.cons _ perm_append_comm)

/-- The addresses of a filled context are those of the context and of the tree. -/
theorem places_plug (context : List (Frame Entry)) (tree : RedBlack.Tree Entry) :
    (places (plug context tree)).Perm (contextPlaces context ++ places tree) := by
  induction context generalizing tree with
  | nil => exact List.Perm.refl _
  | cons frame rest ih =>
    rw [plug_cons]
    refine (ih _).trans ?_
    refine (List.Perm.append_left _ (places_join _ _ _ _ _)).trans ?_
    refine perm_middle.trans ?_
    rw [contextPlaces, cons_append]
    refine List.Perm.cons _ ?_
    refine (List.Perm.append_left _ perm_append_comm).trans ?_
    rw [← append_assoc]
    exact List.Perm.append_right _ perm_append_comm

variable {hole address probe : Nat} {node : Node} {tree tree' sibling : RedBlack.Tree Entry}
  {dir : Side} {pivotColor : Color} {pivot : Entry}

section Frames

variable {nodes nodes' : Nat → Option Node}

/-- Only the nodes of a tree matter for whether it is stored. -/
theorem stored_congr {parent : Nat}
    (same : ∀ address ∈ places tree, nodes' address = nodes address)
    (stored : Stored nodes parent tree) : Stored nodes' parent tree := by
  induction tree generalizing parent with
  | leaf => trivial
  | node color left entry right leftHypothesis rightHypothesis =>
    simp only [places, RedBlack.Tree.toList, map_append, map_cons, mem_append,
      mem_cons] at same
    obtain ⟨here, leftStored, rightStored⟩ := stored
    refine ⟨(same _ (.inr (.inl rfl))).trans here, leftHypothesis ?_ leftStored,
      rightHypothesis ?_ rightStored⟩
    · exact fun address member => same address (.inl member)
    · exact fun address member => same address (.inr (.inr member))

variable {context : List (Frame Entry)}

/-- Only the nodes of a context matter for whether it is stored. -/
theorem holds_congr (same : ∀ address ∈ contextPlaces context, nodes' address = nodes address)
    (holds : Holds nodes context hole) : Holds nodes' context hole := by
  induction context generalizing hole with
  | nil => trivial
  | cons frame rest ih =>
    simp only [contextPlaces, mem_append, mem_cons, cons_append] at same
    obtain ⟨here, sibling, outer⟩ := holds
    refine ⟨(same _ (.inl rfl)).trans here, stored_congr ?_ sibling,
      ih ?_ outer⟩
    · exact fun address member => same address (.inr (.inl member))
    · exact fun address member => same address (.inr (.inr member))

theorem put_same (nodes : Nat → Option Node) (address : Nat) (cell : Option Node) :
    put nodes address cell address = cell := if_pos rfl

variable {cell : Option Node}

theorem put_other (different : probe ≠ address) :
    put nodes address cell probe = nodes probe := if_neg different

/-- A write outside a tree leaves it stored. -/
theorem stored_put {parent : Nat} (outside : address ∉ places tree)
    (stored : Stored nodes parent tree) : Stored (put nodes address cell) parent tree :=
  stored_congr (fun _ member => put_other (fun same => outside (same ▸ member))) stored

/-- A write outside a context leaves it stored. -/
theorem holds_put (outside : address ∉ contextPlaces context) (holds : Holds nodes context hole) :
    Holds (put nodes address cell) context hole :=
  holds_congr (fun _ member => put_other (fun same => outside (same ▸ member))) holds

end Frames

/-- The store holds exactly this tree. -/
structure Represents (store : Store) (tree : RedBlack.Tree Entry) : Prop where
  root : store.root = pointer tree
  stored : Stored store.nodes 0 tree
  distinct : (places tree).Nodup
  valid : ∀ address ∈ places tree, 0 < address ∧ address < addresses
  only : ∀ address, address ∉ places tree → store.nodes address = none

section Writes

variable {store : Store}

/-- A load from an allocated node succeeds. -/
theorem load_eq (store : Store) (positive : 0 < address) (here : store.nodes address = some node) :
    load store address = some node := by
  rw [load, if_neg (by omega), here]

/-- A write to an allocated node succeeds and changes that node only. -/
theorem update_eq (store : Store) (change : Node → Node) (positive : 0 < address)
    (here : store.nodes address = some node) :
    update store address change =
      some { store with nodes := put store.nodes address (some (change node)) } := by
  simp [update, load_eq store positive here]

/-- The pointer to a filled context sees only the pointer to the tree. -/
theorem pointer_plug_congr (context : List (Frame Entry)) (same : pointer tree = pointer tree') :
    pointer (plug context tree) = pointer (plug context tree') := by
  induction context generalizing tree tree' with
  | nil => exact same
  | cons frame rest ih => exact ih (by simp)

/-- A subtree with the same addresses leaves those of the whole tree alone. -/
theorem places_plug_congr (context : List (Frame Entry)) (same : places tree = places tree') :
    places (plug context tree) = places (plug context tree') := by
  unfold places at same ⊢
  rw [to_list_plug, to_list_plug, map_append, map_append, same, ← map_append,
    ← map_append]

/-- The root of a tree is one of its nodes. -/
theorem pointer_mem (side : Side) (color : Color) (inner outer : RedBlack.Tree Entry) (entry : Entry) :
    entry.address ∈ places (join side color inner entry outer) :=
  (places_join side color inner outer entry).mem_iff.mpr mem_cons_self

/-- Everything a represented tree says about one of its nodes: the node in memory,
what is around it, and that the addresses of these pieces are distinct. -/
structure Focus (store : Store) (context : List (Frame Entry)) (side : Side) (color : Color)
    (inner : RedBlack.Tree Entry) (entry : Entry) (outer : RedBlack.Tree Entry) : Prop where
  cell : store.nodes entry.address =
    some (image side color entry (above context) (pointer inner) (pointer outer))
  positive : 0 < entry.address
  holds : Holds store.nodes context entry.address
  innerStored : Stored store.nodes entry.address inner
  outerStored : Stored store.nodes entry.address outer
  distinct : (contextPlaces context ++ entry.address :: (places inner ++ places outer)).Nodup

variable {context : List (Frame Entry)}

variable {side : Side} {color : Color} {inner outer : RedBlack.Tree Entry} {entry : Entry}

/-- A represented tree, taken apart at one of its nodes. -/
theorem represents_focus
    (represents : Represents store (plug context (join side color inner entry outer))) :
    Focus store context side color inner entry outer := by
  obtain ⟨_, stored, distinct, valid, _⟩ := represents
  rw [stored_plug, stored_join, pointer_join] at stored
  obtain ⟨holds, cell, innerStored, outerStored⟩ := stored
  have perm := (places_plug context (join side color inner entry outer)).trans
    (List.Perm.append_left _ (places_join side color inner outer entry))
  exact ⟨cell, (valid entry.address (perm.mem_iff.mpr (by simp))).1, holds, innerStored,
    outerStored, perm.nodup_iff.mp distinct⟩

/-- The allocated nodes are those of the tree. -/
theorem represents_allocated (represents : Represents store tree) (address : Nat) :
    store.nodes address ≠ none ↔ address ∈ places tree := by
  constructor
  · intro allocated
    by_contra outside
    exact allocated (represents.only address outside)
  · intro member
    obtain ⟨entry, inside, rfl⟩ := mem_map.mp member
    obtain ⟨context, color, left, right, rfl⟩ := entry_split tree entry inside
    have here : Represents store (plug context (join .left color left entry right)) := represents
    rw [(represents_focus here).cell]
    exact Option.some_ne_none _

section

variable {side : Side} {color : Color} {inner outer : RedBlack.Tree Entry} {entry : Entry}
  (represents : Represents store (plug context (join side color inner entry outer)))
include represents

/-- Writing the colour and the value of a node rewrites it in the tree. -/
theorem represents_rewrite (color' : Color) (entry' : Entry)
    (same : entry'.address = entry.address) :
    Represents { store with
      nodes := put store.nodes entry.address
        (some (image side color' entry' (above context) (pointer inner) (pointer outer))) }
      (plug context (join side color' inner entry' outer)) := by
  obtain ⟨cell, positive, holds, innerStored, outerStored, apart⟩ := represents_focus represents
  obtain ⟨root, _, distinct, valid, only⟩ := represents
  have samePlaces : places (plug context (join side color' inner entry' outer)) =
      places (plug context (join side color inner entry outer)) :=
    places_plug_congr context (by cases side <;> simp [places, join, RedBlack.Tree.toList, same])
  simp only [nodup_append, nodup_cons, mem_append, mem_cons, not_or] at apart
  obtain ⟨_, ⟨⟨notInner, notOuter⟩, _⟩, between⟩ := apart
  refine ⟨?_, ?_, by rw [samePlaces]; exact distinct, by rw [samePlaces]; exact valid, ?_⟩
  · rw [root]
    exact pointer_plug_congr context (by simp [same])
  · rw [stored_plug, stored_join, pointer_join, same]
    refine ⟨holds_put ?_ holds, put_same _ _ _, stored_put notInner innerStored,
      stored_put notOuter outerStored⟩
    intro inside
    exact between _ inside _ (.inl rfl) rfl
  · intro address outside
    rw [samePlaces] at outside
    have different : address ≠ entry.address := by
      rintro rfl
      refine outside ((places_plug context _).mem_iff.mpr (mem_append_right _ ?_))
      exact pointer_mem side color inner outer entry
    exact (put_other different).trans (only address outside)

/-- Painting a node paints it in the tree. -/
theorem represents_paint (color' : Color) :
    ∃ painted, paint store entry.address color' = some painted ∧
      Represents painted (plug context (join side color' inner entry outer)) := by
  have focus := represents_focus represents
  refine ⟨_, update_eq store _ focus.positive focus.cell, ?_⟩
  simp only [image_set_color]
  exact represents_rewrite represents color' entry rfl

/-- What is loaded from a node of the tree. -/
theorem represents_load :
    load store entry.address =
      some (image side color entry (above context) (pointer inner) (pointer outer)) :=
  load_eq store (represents_focus represents).positive (represents_focus represents).cell

/-- The same tree with the child at the given side in focus. -/
theorem represents_inner :
    Represents store (plug ({ side := side, color := color, entry := entry, sibling := outer } ::
      context) inner) := represents

/-- The same tree with the child at the other side in focus. -/
theorem represents_outer :
    Represents store (plug ({ side := side.flip, color := color, entry := entry,
                              sibling := inner } :: context) outer) := by
  rw [plug_cons, join_flip]
  exact represents

end

/-- Asking a subtree for a red root. -/
theorem represents_is_red (represents : Represents store (plug context tree)) :
    isRed store (pointer tree) = some (tree.color == .red) := by
  rcases tree_cases .left tree with rfl | ⟨color, inner, entry, outer, rfl⟩
  · rfl
  · have positive := (represents_focus represents).positive
    rw [pointer_join, isRed, if_neg (by omega), represents_load represents]
    simp

variable {rest : List (Frame Entry)} {frame : Frame Entry}

/-- The root of a subtree beside the path is not a node on the path. -/
theorem sibling_ne
    (represents : Represents store (plug (frame :: rest) (join side color inner entry outer)))
    (beside : frame.sibling = sibling) : entry.address ≠ pointer sibling := by
  subst beside
  have positive := (represents_focus represents).positive
  rw [plug_cons] at represents
  have apart := (represents_focus represents).distinct
  have here := pointer_mem side color inner outer entry
  rcases tree_cases .left frame.sibling with leaf | ⟨color', inner', entry', outer', same⟩
  · rw [leaf]
    exact Nat.ne_of_gt positive
  · rw [same] at apart ⊢
    have there := pointer_mem .left color' inner' outer' entry'
    rw [pointer_join]
    simp only [nodup_append, nodup_cons] at apart
    exact apart.2.1.2.2.2 _ here _ there

/-- The root of a filled context is a node of the context. -/
theorem pointer_plug_mem (frame : Frame Entry) (rest : List (Frame Entry)) (tree : RedBlack.Tree Entry) :
    pointer (plug (frame :: rest) tree) ∈ contextPlaces (frame :: rest) := by
  induction rest generalizing frame tree with
  | nil => simp [contextPlaces]
  | cons next others ih =>
    rw [plug_cons]
    exact mem_append_right _ (ih next _)

/-- A node with a parent is not the root. -/
theorem represents_root_ne
    (represents : Represents store (plug (frame :: rest) (join side color inner entry outer))) :
    entry.address ≠ store.root := by
  have apart := (represents_focus represents).distinct
  simp only [nodup_append, mem_cons] at apart
  rw [represents.root]
  exact (apart.2.2 _ (pointer_plug_mem frame rest _) _ (.inl rfl)).symm

/-- The side of a node is found by comparing it with its parent's children. -/
theorem represents_get_dir
    (represents : Represents store (plug (frame :: rest) (join side color inner entry outer))) :
    getDir store entry.address = some frame.side := by
  have different := sibling_ne represents rfl
  have here := represents_load represents
  rw [plug_cons] at represents
  have there := represents_load represents
  simp only [getDir, here, image_parent, above_cons, there, Option.bind_eq_bind, Option.bind_some,
    pointer_join]
  obtain ⟨frameSide, frameColor, frameEntry, sibling⟩ := frame
  cases frameSide with
  | right => rw [image_child, if_pos rfl]
  | left =>
    have beside := image_child_flip .left frameColor frameEntry (above rest) entry.address
      (pointer sibling)
    rw [show Side.left.flip = Side.right from rfl] at beside
    rw [beside, if_neg different]

end Writes

section Rotation

variable {store : Store}

/-- Giving a subtree a new parent changes only the subtree's root. -/
theorem adopt_spec {parent : Nat} (target : Nat) (stored : Stored store.nodes parent tree)
    (distinct : (places tree).Nodup) (positive : ∀ address ∈ places tree, 0 < address) :
    ∃ nodes, adopt store (pointer tree) target = some { store with nodes := nodes } ∧
      Stored nodes target tree ∧ ∀ address ∉ places tree, nodes address = store.nodes address := by
  rcases tree_cases .left tree with rfl | ⟨color, inner, entry, outer, rfl⟩
  · exact ⟨store.nodes, rfl, trivial, fun _ _ => rfl⟩
  · have member := pointer_mem .left color inner outer entry
    have above := positive _ member
    rw [(places_join .left color inner outer entry).nodup_iff] at distinct
    simp only [nodup_cons, mem_append, not_or] at distinct
    rw [stored_join] at stored
    refine ⟨_, ?_, (stored_join _ _ _ _ _ _ _).mpr
      ⟨put_same _ _ _, stored_put distinct.1.1 stored.2.1, stored_put distinct.1.2 stored.2.2⟩, ?_⟩
    · rw [pointer_join, adopt, if_pos (by omega), update_eq store _ above stored.1, image_set_parent]
    · intro address outside
      exact put_other (fun same => outside (same ▸ member))

variable {context : List (Frame Entry)}

/-- Redirecting the pointer to a hole changes only the node above it, or the root
pointer. The side is found by comparing pointers, which the sibling's distinct
addresses make safe. -/
theorem relink_spec (target : Nat) (dir : Side) (holds : Holds store.nodes context hole)
    (distinct : (contextPlaces context).Nodup) (outside : hole ∉ contextPlaces context)
    (holePositive : 0 < hole) (positive : ∀ address ∈ contextPlaces context, 0 < address) :
    ∃ linked, relink store (above context) hole target dir = some linked ∧
      Holds linked.nodes context target ∧
      (∀ address ∉ contextPlaces context, linked.nodes address = store.nodes address) ∧
      linked.root = if context = [] then target else store.root := by
  cases context with
  | nil => exact ⟨_, rfl, trivial, fun _ _ => rfl, rfl⟩
  | cons frame rest =>
    obtain ⟨here, sibling, outer⟩ := holds
    have above : 0 < frame.entry.address := positive _ (by simp [contextPlaces])
    simp only [contextPlaces, cons_append, nodup_cons, mem_append, not_or]
      at distinct
    have written : relink store (RbtShape.above (frame :: rest)) hole target dir =
        update store frame.entry.address (fun node => node.setChild frame.side target) := by
      rw [above_cons, relink, if_neg (by omega), load_eq store above here]
      rcases side_cases dir frame.side with rfl | rfl
      · simp
      · -- The sibling is at `dir`; its root is not the hole.
        have different : hole ≠ pointer frame.sibling := by
          rcases tree_cases .left frame.sibling with leaf | ⟨color, inner, entry, outer, same⟩
          · rw [leaf]
            exact Nat.ne_of_gt holePositive
          · rw [same, pointer_join]
            rintro rfl
            refine outside ?_
            rw [contextPlaces, same, mem_append, mem_cons]
            exact .inl (.inr (pointer_mem .left color inner outer entry))
        simp [different]
    refine ⟨_, written.trans (update_eq store _ above here), ?_, ?_, by simp⟩
    · rw [image_set_child]
      exact ⟨put_same _ _ _, stored_put distinct.1.1 sibling, holds_put distinct.1.2 outer⟩
    · intro address outside
      refine put_other (fun same => outside ?_)
      rw [same]
      simp [contextPlaces]

/-- The places around a rotation do not overlap. -/
structure Separate (context : List (Frame Entry)) (entry pivot : Nat)
    (near middle far : RedBlack.Tree Entry) : Prop where
  different : entry ≠ pivot
  entryOutside : entry ∉ contextPlaces context ∧ entry ∉ places near ∧ entry ∉ places middle ∧
    entry ∉ places far
  pivotOutside : pivot ∉ contextPlaces context ∧ pivot ∉ places near ∧ pivot ∉ places middle ∧
    pivot ∉ places far
  contextOutside : ∀ address ∈ contextPlaces context, address ∉ places near ∧
    address ∉ places middle ∧ address ∉ places far
  middleOutside : ∀ address ∈ places middle, address ∉ places near ∧ address ∉ places far
  middleDistinct : (places middle).Nodup
  contextDistinct : (contextPlaces context).Nodup

variable {near middle far : RedBlack.Tree Entry}

/-- Nodes at distinct addresses are apart from one another. -/
theorem separate_of_nodup {entry pivot : Nat} (distinct : (contextPlaces context ++ entry ::
      (places near ++ pivot :: (places middle ++ places far))).Nodup) :
    Separate context entry pivot near middle far := by
  simp only [nodup_append, nodup_cons, mem_append, mem_cons, not_or]
    at distinct
  constructor <;> grind

/-- What a rotation leaves: the context points to the pivot, the pivot to the entry, the middle tree
has changed hands, and everything else is where it was. -/
structure Turned (store turned : Store) (context : List (Frame Entry)) (dir : Side)
    (color pivotColor : Color) (entry pivot : Entry) (near middle far : RedBlack.Tree Entry) :
    Prop where
  holds : Holds turned.nodes context pivot.address
  pivotCell : turned.nodes pivot.address =
    some (image dir pivotColor pivot (above context) entry.address (pointer far))
  entryCell : turned.nodes entry.address =
    some (image dir color entry pivot.address (pointer near) (pointer middle))
  adopted : Stored turned.nodes entry.address middle
  others : ∀ address, address ≠ entry.address → address ≠ pivot.address →
    address ∉ contextPlaces context → address ∉ places middle →
      turned.nodes address = store.nodes address
  root : turned.root = if context = [] then pivot.address else store.root

/-- The stores of a rotation, one after the other, and what each of them leaves alone. -/
theorem rotate_turned {color : Color} {entry : Entry}
    (separate : Separate context entry.address pivot.address near middle far)
    (positive : 0 < entry.address) (pivotPositive : 0 < pivot.address)
    (contextPositive : ∀ address ∈ contextPlaces context, 0 < address)
    (middlePositive : ∀ address ∈ places middle, 0 < address)
    (holds : Holds store.nodes context entry.address)
    (cell : store.nodes entry.address =
      some (image dir color entry (above context) (pointer near) pivot.address))
    (pivotCell : store.nodes pivot.address =
      some (image dir pivotColor pivot entry.address (pointer middle) (pointer far)))
    (middleStored : Stored store.nodes pivot.address middle) :
    ∃ turned, rotate store entry.address dir = some turned ∧
      Turned store turned context dir color pivotColor entry pivot near middle far := by
  obtain ⟨different, entryOutside, pivotOutside, contextOutside, _, middleDistinct,
    contextDistinct⟩ := separate
  -- The rotated node gives up its pivot for the middle tree, which then adopts it.
  generalize firstIs : put store.nodes entry.address
    (some (image dir color entry (above context) (pointer near) (pointer middle))) = first
  have firstOther (address : Nat) (other : address ≠ entry.address) :
      first address = store.nodes address := by
    rw [← firstIs, put_other other]
  have firstStep : update store entry.address
      (fun node => node.setChild dir.flip (pointer middle)) =
      some { store with nodes := first } := by
    rw [update_eq store _ positive cell, image_set_child_flip, firstIs]
  have middleKept : Stored ({ store with nodes := first } : Store).nodes pivot.address middle :=
    stored_congr (fun address member => firstOther address (by grind)) middleStored
  obtain ⟨second, adopted, middleAdopted, secondOther⟩ := adopt_spec entry.address middleKept
    middleDistinct middlePositive
  have secondEntry : second entry.address =
      some (image dir color entry (above context) (pointer near) (pointer middle)) := by
    rw [secondOther _ entryOutside.2.2.1]
    simp only [← firstIs, put_same]
  have secondPivot : second pivot.address = some
      (image dir pivotColor pivot entry.address (pointer middle) (pointer far)) := by
    rw [secondOther _ pivotOutside.2.2.1]
    exact (firstOther _ different.symm).trans pivotCell
  -- The pivot moves below the parent of the rotated node, and the parent to the pivot.
  generalize thirdIs : put second pivot.address
    (some (image dir pivotColor pivot (above context) (pointer middle) (pointer far))) = third
  have thirdOther (address : Nat) (other : address ≠ pivot.address) :
      third address = second address := by
    rw [← thirdIs, put_other other]
  have thirdStep : update { store with nodes := second } pivot.address
      (fun node => { node with parent := above context }) =
      some { store with nodes := third } := by
    rw [update_eq { store with nodes := second } _ pivotPositive secondPivot, image_set_parent,
      thirdIs]
  have contextKept : Holds ({ store with nodes := third } : Store).nodes context entry.address := by
    refine holds_congr (fun address member => ?_) holds
    exact (thirdOther address (by grind)).trans ((secondOther address
      (contextOutside address member).2.1).trans (firstOther address (by grind)))
  obtain ⟨linked, relinked, linkedHolds, linkedOther, linkedRoot⟩ := relink_spec pivot.address dir
    contextKept contextDistinct entryOutside.1 positive contextPositive
  have linkedPivot : linked.nodes pivot.address =
      some (image dir pivotColor pivot (above context) (pointer middle) (pointer far)) := by
    rw [linkedOther _ pivotOutside.1]
    simp only [← thirdIs, put_same]
  have linkedEntry : linked.nodes entry.address =
      some (image dir color entry (above context) (pointer near) (pointer middle)) := by
    rw [linkedOther _ entryOutside.1]
    exact (thirdOther _ different).trans secondEntry
  -- The two nodes are linked to each other.
  have fifthStep := update_eq linked (fun node => node.setChild dir entry.address) pivotPositive
    linkedPivot
  rw [image_set_child] at fifthStep
  generalize fifthIs : put linked.nodes pivot.address
    (some (image dir pivotColor pivot (above context) entry.address (pointer far))) = fifth
    at fifthStep
  have fifthOther (address : Nat) (other : address ≠ pivot.address) :
      fifth address = linked.nodes address := by
    rw [← fifthIs, put_other other]
  have sixthStep := update_eq { linked with nodes := fifth }
    (fun node => { node with parent := pivot.address }) positive
    ((fifthOther _ different).trans linkedEntry)
  rw [image_set_parent] at sixthStep
  have lastOther (address : Nat) (notEntry : address ≠ entry.address)
      (notPivot : address ≠ pivot.address) :
      put fifth entry.address
        (some (image dir color entry pivot.address (pointer near) (pointer middle))) address =
        linked.nodes address := by
    rw [put_other notEntry, fifthOther _ notPivot]
  refine ⟨{ linked with nodes := put fifth entry.address (some (image dir color entry
    pivot.address (pointer near) (pointer middle))) }, ?_, ?_, ?_, put_same _ _ _, ?_, ?_,
    linkedRoot⟩
  · simp only [rotate, load_eq store positive cell, image_child_flip,
      load_eq store pivotPositive pivotCell, image_child, firstStep, adopted, image_parent,
      Option.bind_eq_bind, Option.bind_some,
      load_eq { store with nodes := second } positive secondEntry, thirdStep, relinked,
      fifthStep, sixthStep]
  · exact holds_congr (fun address member => lastOther address (by grind) (by grind)) linkedHolds
  · refine (put_other different.symm).trans ?_
    rw [← fifthIs, put_same]
  · refine stored_congr (fun address member => (lastOther _ ?_ ?_).trans ?_) middleAdopted
    · exact fun same => entryOutside.2.2.1 (same ▸ member)
    · exact fun same => pivotOutside.2.2.1 (same ▸ member)
    · rw [linkedOther _ fun around => (contextOutside _ around).2.1 member]
      exact thirdOther _ fun same => pivotOutside.2.2.1 (same ▸ member)
  · intro address notEntry notPivot notContext notMiddle
    refine (lastOther _ notEntry notPivot).trans ?_
    rw [linkedOther _ notContext]
    exact (thirdOther _ notPivot).trans ((secondOther _ notMiddle).trans (firstOther _ notEntry))

/-- A rotation in memory is a rotation of the tree. -/
theorem represents_rotate {color : Color} {entry : Entry}
    (represents : Represents store
      (plug context (join dir color near entry (join dir pivotColor middle pivot far)))) :
    ∃ turned, rotate store entry.address dir = some turned ∧
      Represents turned
        (plug context (join dir pivotColor (join dir color near entry middle) pivot far)) := by
  obtain ⟨cell, positive, holds, nearStored, pivotStored, _⟩ := represents_focus represents
  obtain ⟨root, _, distinct, valid, only⟩ := represents
  rw [stored_join] at pivotStored
  obtain ⟨pivotCell, middleStored, farStored⟩ := pivotStored
  rw [pointer_join] at cell
  have samePlaces : places (plug context
      (join dir pivotColor (join dir color near entry middle) pivot far)) =
      places (plug context (join dir color near entry (join dir pivotColor middle pivot far))) :=
    places_plug_congr context (congrArg (List.map Entry.address)
      (to_list_rotate dir color pivotColor color pivotColor near middle far entry pivot)).symm
  have perm := ((places_plug context _).trans (List.Perm.append_left _
    ((places_join dir color near (join dir pivotColor middle pivot far) entry).trans
      (List.Perm.cons _ (List.Perm.append_left _ (places_join dir pivotColor middle far pivot))))))
  have separate := separate_of_nodup (perm.nodup_iff.mp distinct)
  have inside (address : Nat) (member : address ∈ contextPlaces context ++ entry.address ::
      (places near ++ pivot.address :: (places middle ++ places far))) : 0 < address :=
    (valid address (perm.mem_iff.mpr member)).1
  obtain ⟨turned, result, after⟩ := rotate_turned separate positive (inside _ (by simp))
    (fun address member => inside address (by simp [member]))
    (fun address member => inside address (by simp [member])) holds cell pivotCell middleStored
  obtain ⟨_, entryOutside, pivotOutside, contextOutside, middleOutside, _, _⟩ := separate
  refine ⟨turned, result, ?_, ?_, by rw [samePlaces]; exact distinct,
    by rw [samePlaces]; exact valid, ?_⟩
  · rw [after.root]
    cases context with
    | nil => simp
    | cons frame rest =>
      simp only [if_neg (cons_ne_nil frame rest), root, plug_cons]
      exact pointer_plug_congr rest (by simp)
  · rw [stored_plug]
    simp only [stored_join, pointer_join]
    refine ⟨after.holds, after.pivotCell, ⟨after.entryCell, ?_, after.adopted⟩, ?_⟩
    · exact stored_congr (fun address member => after.others address (by grind) (by grind)
        (by grind) (by grind)) nearStored
    · exact stored_congr (fun address member => after.others address (by grind) (by grind)
        (by grind) (by grind)) farStored
  · intro address outside
    rw [samePlaces] at outside
    have away := mt perm.mem_iff.mpr outside
    simp only [mem_append, mem_cons, not_or] at away
    exact (after.others address away.2.1 away.2.2.2.1 away.1 away.2.2.2.2.1).trans
      (only address outside)

end Rotation

end Balrog.RbtShape
