import Mathlib.Tactic.Common

/-!
# Red-black trees and their contexts

Trees carry a color and an entry at every node; entries are of any type. A context
is the list of frames from a hole up to the root, and `plug` fills the hole. The
bottom-up algorithms move a hole towards the root, so the invariants are stated on
both halves: `Balanced` for a tree of a given black height, `Accepts` for a context
whose hole takes trees of a given black height.

`join side` builds a node by naming its child at `side` first, so that mirrored
cases are one case. The rotations and recolorings of insertion and deletion each
have one lemma about balance; all keep the order of entries. No order on entries
and no search is assumed here.
-/

namespace RedBlack

open List

universe u

/-- The color of a node. Leaves count as black. -/
inductive Color where
  | black
  | red
deriving DecidableEq, Repr

/-- The two sides of a node. -/
inductive Side where
  | left
  | right
deriving DecidableEq, Repr

/-- The other side. -/
def Side.flip : Side → Side
  | .left => .right
  | .right => .left

@[simp] theorem flip_flip (side : Side) : side.flip.flip = side := by cases side <;> rfl

/-- Two sides are equal or mirrored. -/
theorem side_cases (side other : Side) : side = other ∨ side = other.flip := by
  cases side <;> cases other <;> simp [Side.flip]

/-- What a node adds to the black height. -/
def Color.weight : Color → Nat
  | .black => 1
  | .red => 0

@[simp] theorem weight_black : Color.black.weight = 1 := rfl

@[simp] theorem weight_red : Color.red.weight = 0 := rfl

theorem color_cases (color : Color) : color = .black ∨ color = .red := by cases color <;> simp

/-- Binary trees with coloured nodes. -/
inductive Tree (α : Type u) where
  | leaf
  | node (color : Color) (left : Tree α) (entry : α) (right : Tree α)

variable {α : Type u}

/-- A node with `inner` at the given side and `outer` at the other. -/
def join : Side → Color → Tree α → α → Tree α → Tree α
  | .left, color, inner, entry, outer => .node color inner entry outer
  | .right, color, inner, entry, outer => .node color outer entry inner

/-- A node seen from its other side. -/
theorem join_flip (side : Side) (color : Color) (inner outer : Tree α) (entry : α) :
    join side.flip color inner entry outer = join side color outer entry inner := by
  cases side <;> rfl

/-- Every node can be seen from either side. -/
theorem join_view (side other : Side) (color : Color) (inner outer : Tree α) (entry : α) :
    ∃ inner' outer', join side color inner entry outer =
      join other color inner' entry outer' := by
  rcases side_cases side other with rfl | rfl
  · exact ⟨inner, outer, rfl⟩
  · exact ⟨outer, inner, join_flip other color inner outer entry⟩

/-- Two nodes in a row at one side, seen from the other side. -/
theorem join_straight (side : Side) (color color' : Color) (a b c : Tree α) (low high : α) :
    join side color (join side color' a low b) high c =
      join side.flip color c high (join side.flip color' b low a) := by
  cases side <;> rfl

/-- Every tree is a leaf or a node seen from either side. -/
theorem tree_cases (side : Side) (tree : Tree α) :
    tree = .leaf ∨ ∃ color inner entry outer, tree = join side color inner entry outer := by
  cases tree with
  | leaf => exact .inl rfl
  | node color left entry right =>
    cases side
    · exact .inr ⟨color, left, entry, right, rfl⟩
    · exact .inr ⟨color, right, entry, left, rfl⟩

/-- The colour of the root; leaves are black. -/
def Tree.color : Tree α → Color
  | .leaf => .black
  | .node color _ _ _ => color

@[simp] theorem color_leaf : (Tree.leaf : Tree α).color = .black := rfl

@[simp] theorem color_join (side : Side) (color : Color) (inner outer : Tree α) (entry : α) :
    (join side color inner entry outer).color = color := by
  cases side <;> rfl

/-- A red tree is a node. -/
theorem red_cases (side : Side) (tree : Tree α) (red : tree.color = .red) :
    ∃ inner entry outer, tree = join side .red inner entry outer := by
  rcases tree_cases side tree with rfl | ⟨color, inner, entry, outer, rfl⟩
  · cases red
  · rw [color_join] at red
    exact ⟨inner, entry, outer, by rw [red]⟩

/-- The tree with another colour at its root. -/
def Tree.paint (color : Color) : Tree α → Tree α
  | .leaf => .leaf
  | .node _ left entry right => .node color left entry right

@[simp] theorem paint_join (side : Side) (color old : Color) (inner outer : Tree α) (entry : α) :
    (join side old inner entry outer).paint color = join side color inner entry outer := by
  cases side <;> rfl

@[simp] theorem color_paint_black (tree : Tree α) : (tree.paint .black).color = .black := by
  cases tree <;> rfl

/-- The entries from left to right. -/
def Tree.toList : Tree α → List α
  | .leaf => []
  | .node _ left entry right => left.toList ++ entry :: right.toList

@[simp] theorem to_list_leaf : (Tree.leaf : Tree α).toList = [] := rfl

@[simp] theorem to_list_paint (color : Color) (tree : Tree α) :
    (tree.paint color).toList = tree.toList := by
  cases tree <;> rfl

/-- Colors do not matter to the order of entries. -/
theorem to_list_join_congr {side : Side} {color color' : Color} {inner inner' outer outer' : Tree α}
    {entry : α} (sameInner : inner.toList = inner'.toList)
    (sameOuter : outer.toList = outer'.toList) :
    (join side color inner entry outer).toList = (join side color' inner' entry outer').toList := by
  cases side <;> simp [join, Tree.toList, sameInner, sameOuter]

/-- A rotation keeps the order of the entries. -/
theorem to_list_rotate (side : Side) (first second first' second' : Color) (near middle far : Tree α)
    (low high : α) :
    (join side first near low (join side second middle high far)).toList =
      (join side second' (join side first' near low middle) high far).toList := by
  cases side <;> simp [join, Tree.toList]

/-- A rotation at the upper of two nodes in a row keeps the order of entries. -/
theorem to_list_straight (side : Side) (c₁ c₂ c₃ c₄ : Color) (a b c : Tree α) (x y : α) :
    (join side.flip c₁ (join side.flip c₂ c y b) x a).toList =
      (join side c₃ (join side c₄ a x b) y c).toList := by
  cases side <;> simp [join, Tree.toList, Side.flip]

/-- Two rotations that bring an inner grandchild up keep the order of entries. -/
theorem to_list_bent (side : Side) (c₁ c₂ c₃ c₄ c₅ c₆ : Color) (a b c d : Tree α) (x y z : α) :
    (join side.flip c₁ (join side.flip c₂ d z c) y (join side c₃ a x b)).toList =
      (join side c₄ (join side.flip c₅ (join side c₆ b y c) x a) z d).toList := by
  cases side <;> simp [join, Tree.toList, Side.flip]

/-- The tree has the given black height and no red node with a red child. -/
def Balanced : Tree α → Nat → Prop
  | .leaf, height => height = 0
  | .node color left _ right, height =>
      ∃ below, height = below + color.weight ∧ Balanced left below ∧ Balanced right below ∧
        (color = .red → left.color = .black ∧ right.color = .black)

/-- The number of black nodes on each path from the root to a leaf. -/
def Tree.pathBlacks : Tree α → List Nat
  | .leaf => [0]
  | .node color left _ right => (left.pathBlacks ++ right.pathBlacks).map (· + color.weight)

/-- In a balanced tree every path has the black height many black nodes. -/
theorem balanced_path_blacks (tree : Tree α) (height : Nat) (balanced : Balanced tree height) :
    ∀ count ∈ tree.pathBlacks, count = height := by
  induction tree generalizing height with
  | leaf =>
    intro count member
    rw [Tree.pathBlacks, mem_singleton] at member
    exact member.trans balanced.symm
  | node color left entry right leftHypothesis rightHypothesis =>
    obtain ⟨below, rfl, leftBalanced, rightBalanced, _⟩ := balanced
    intro count member
    obtain ⟨inner, path, rfl⟩ := mem_map.mp member
    rcases mem_append.mp path with here | here
    · rw [leftHypothesis below leftBalanced inner here]
    · rw [rightHypothesis below rightBalanced inner here]

/-- A node is balanced when its subtrees are, and a red one has black children. -/
theorem balanced_join (side : Side) (color : Color) (inner outer : Tree α) (entry : α)
    (height : Nat) :
    Balanced (join side color inner entry outer) height ↔
      ∃ below, height = below + color.weight ∧ Balanced inner below ∧ Balanced outer below ∧
        (color = .red → inner.color = .black ∧ outer.color = .black) := by
  cases side with
  | left => rfl
  | right =>
    constructor
    · rintro ⟨below, same, outerBalanced, innerBalanced, colors⟩
      exact ⟨below, same, innerBalanced, outerBalanced, fun red => (colors red).symm⟩
    · rintro ⟨below, same, innerBalanced, outerBalanced, colors⟩
      exact ⟨below, same, outerBalanced, innerBalanced, fun red => (colors red).symm⟩

variable {inner outer : Tree α}

variable {height : Nat}

/-- A black node over two trees of one height. -/
theorem balanced_black (side : Side) (entry : α) (innerBalanced : Balanced inner height)
    (outerBalanced : Balanced outer height) :
    Balanced (join side .black inner entry outer) (height + 1) :=
  (balanced_join side .black inner outer entry (height + 1)).mpr
    ⟨height, rfl, innerBalanced, outerBalanced, fun red => by cases red⟩

/-- A red node over two trees of one height with black roots. -/
theorem balanced_red (side : Side) (entry : α) (innerBalanced : Balanced inner height)
    (outerBalanced : Balanced outer height) (innerBlack : inner.color = .black)
    (outerBlack : outer.color = .black) :
    Balanced (join side .red inner entry outer) height :=
  (balanced_join side .red inner outer entry height).mpr
    ⟨height, rfl, innerBalanced, outerBalanced, fun _ => ⟨innerBlack, outerBlack⟩⟩

/-- The subtrees of a balanced red node are black and of the same height. -/
theorem balanced_red_parts (side : Side) {entry : α}
    (balanced : Balanced (join side .red inner entry outer) height) :
    Balanced inner height ∧ Balanced outer height ∧ inner.color = .black ∧
      outer.color = .black := by
  obtain ⟨below, rfl, innerBalanced, outerBalanced, colors⟩ :=
    (balanced_join side .red inner outer entry height).mp balanced
  exact ⟨innerBalanced, outerBalanced, colors rfl⟩

/-- The subtrees of a balanced black node are one lower. -/
theorem balanced_black_parts (side : Side) {entry : α}
    (balanced : Balanced (join side .black inner entry outer) (height + 1)) :
    Balanced inner height ∧ Balanced outer height := by
  obtain ⟨below, same, innerBalanced, outerBalanced, _⟩ :=
    (balanced_join side .black inner outer entry (height + 1)).mp balanced
  obtain rfl : height = below := by simpa using same
  exact ⟨innerBalanced, outerBalanced⟩

variable {tree : Tree α}

/-- A tree of positive height with a black root is a node. -/
theorem balanced_positive (side : Side) (balanced : Balanced tree (height + 1)) :
    ∃ color inner entry outer, tree = join side color inner entry outer := by
  rcases tree_cases side tree with rfl | found
  · cases balanced
  · exact found

/-- Painting a red root black raises the height by one. -/
theorem balanced_paint_red (balanced : Balanced tree height) (red : tree.color = .red) :
    Balanced (tree.paint .black) (height + 1) := by
  obtain ⟨inner, entry, outer, rfl⟩ := red_cases .left tree red
  obtain ⟨innerBalanced, outerBalanced, _⟩ := balanced_red_parts .left balanced
  rw [paint_join]
  exact balanced_black .left entry innerBalanced outerBalanced

/-- A balanced tree stays balanced when its root is painted black. -/
theorem balanced_paint_black (balanced : Balanced tree height) :
    ∃ higher, Balanced (tree.paint .black) higher := by
  cases tree with
  | leaf => exact ⟨height, balanced⟩
  | node color left entry right =>
    obtain ⟨below, _, leftBalanced, rightBalanced, _⟩ := balanced
    exact ⟨below + 1, balanced_black .left entry leftBalanced rightBalanced⟩

/-- One step of a path from the root: the node passed, the side the path took, and
the subtree at the other side. -/
structure Frame (α : Type u) where
  side : Side
  color : Color
  entry : α
  sibling : Tree α

/-- The node of a frame, with the tree put back on its side. -/
def Frame.fill (frame : Frame α) (tree : Tree α) : Tree α :=
  join frame.side frame.color tree frame.entry frame.sibling

@[simp] theorem color_fill (frame : Frame α) (tree : Tree α) :
    (frame.fill tree).color = frame.color :=
  color_join frame.side frame.color tree frame.sibling frame.entry

/-- Fill the hole of a context, innermost frame first. -/
def plug : List (Frame α) → Tree α → Tree α
  | [], tree => tree
  | frame :: rest, tree => plug rest (frame.fill tree)

@[simp] theorem plug_nil (tree : Tree α) : plug [] tree = tree := rfl

@[simp] theorem plug_cons (frame : Frame α) (rest : List (Frame α)) (tree : Tree α) :
    plug (frame :: rest) tree =
      plug rest (join frame.side frame.color tree frame.entry frame.sibling) := rfl

/-- The same tree with the sibling of the hole in focus. -/
theorem plug_turn (frame : Frame α) (rest : List (Frame α)) (tree : Tree α) :
    plug (frame :: rest) tree =
      plug ({ side := frame.side.flip, color := frame.color, entry := frame.entry,
              sibling := tree } :: rest) frame.sibling := by
  rw [plug_cons, plug_cons, join_flip]

/-- Contexts compose: the inner one is filled first. -/
theorem plug_append (inner outer : List (Frame α)) (tree : Tree α) :
    plug (inner ++ outer) tree = plug outer (plug inner tree) := by
  induction inner generalizing tree with
  | nil => rfl
  | cons frame rest ih => exact ih (frame.fill tree)

/-- The entries to the left of the place that a context leaves open. -/
def before : List (Frame α) → List α
  | [] => []
  | frame :: rest =>
      match frame.side with
      | .left => before rest
      | .right => before rest ++ (frame.sibling.toList ++ [frame.entry])

/-- The entries to the right of the place that a context leaves open. -/
def after : List (Frame α) → List α
  | [] => []
  | frame :: rest =>
      match frame.side with
      | .left => frame.entry :: frame.sibling.toList ++ after rest
      | .right => after rest

/-- What stands before a place, in two steps. -/
theorem before_append (inner outer : List (Frame α)) :
    before (inner ++ outer) = before outer ++ before inner := by
  induction inner with
  | nil => simp [before]
  | cons frame rest ih =>
    obtain ⟨side, color, entry, sibling⟩ := frame
    cases side <;> simp [before, ih]

/-- What stands after a place, in two steps. -/
theorem after_append (inner outer : List (Frame α)) :
    after (inner ++ outer) = after inner ++ after outer := by
  induction inner with
  | nil => simp [after]
  | cons frame rest ih =>
    obtain ⟨side, color, entry, sibling⟩ := frame
    cases side <;> simp [after, ih]

/-- The entries of a filled context stand before, in and after its place. -/
theorem to_list_plug (context : List (Frame α)) (tree : Tree α) :
    (plug context tree).toList = before context ++ tree.toList ++ after context := by
  induction context generalizing tree with
  | nil => simp [before, after]
  | cons frame rest ih =>
    rw [plug_cons, ih]
    obtain ⟨side, color, entry, sibling⟩ := frame
    cases side <;> simp [before, after, join, Tree.toList]

/-- Every entry of a tree stands at some place of it. -/
theorem entry_split (tree : Tree α) (entry : α) (member : entry ∈ tree.toList) :
    ∃ context color left right, plug context (.node color left entry right) = tree := by
  induction tree with
  | leaf => cases member
  | node color left here right leftHypothesis rightHypothesis =>
    simp only [Tree.toList, mem_append, mem_cons] at member
    rcases member with inLeft | rfl | inRight
    · obtain ⟨context, color', left', right', same⟩ := leftHypothesis inLeft
      refine ⟨context ++ [{ side := .left, color := color, entry := here, sibling := right }],
        color', left', right', ?_⟩
      rw [plug_append, same]
      rfl
    · exact ⟨[], color, left, right, rfl⟩
    · obtain ⟨context, color', left', right', same⟩ := rightHypothesis inRight
      refine ⟨context ++ [{ side := .right, color := color, entry := here, sibling := left }],
        color', left', right', ?_⟩
      rw [plug_append, same]
      rfl

/-- Trees with the same entries fill a context to the same entries. -/
theorem to_list_plug_congr (context : List (Frame α)) {tree' : Tree α}
    (same : tree.toList = tree'.toList) :
    (plug context tree).toList = (plug context tree').toList := by
  rw [to_list_plug, to_list_plug, same]

/-- The colour of the whole tree is that of its outermost frame. -/
theorem color_plug (context : List (Frame α)) (tree : Tree α) :
    (plug context tree).color = (context.getLast?.map Frame.color).getD tree.color := by
  induction context generalizing tree with
  | nil => rfl
  | cons frame rest ih =>
    rw [plug_cons, ih, color_join]
    cases rest with
    | nil => rfl
    | cons next others =>
      rw [getLast?_cons_cons]
      cases last : (next :: others).getLast? with
      | none => simp at last
      | some frame => rfl

/-- The root stays black when the tree in the hole keeps its color or turns black. -/
theorem color_plug_black (context : List (Frame α)) {tree' : Tree α}
    (black : (plug context tree).color = .black)
    (here : tree'.color = .black ∨ tree'.color = tree.color) :
    (plug context tree').color = .black := by
  rw [color_plug] at black ⊢
  cases last : context.getLast?.map Frame.color with
  | some color =>
    rw [last] at black
    exact black
  | none =>
    rw [last, Option.getD_none] at black
    rw [Option.getD_none]
    rcases here with turned | kept
    · exact turned
    · exact kept.trans black

/-- The color next to the hole; the outside counts as black. -/
def headColor : List (Frame α) → Color
  | [] => .black
  | frame :: _ => frame.color

/-- The hole takes trees of the given black height; whether their root may be red is
up to the color next to the hole. -/
def Accepts : List (Frame α) → Nat → Prop
  | [], _ => True
  | frame :: rest, height =>
      Balanced frame.sibling height ∧
        (frame.color = .red → frame.sibling.color = .black ∧ headColor rest = .black) ∧
        Accepts rest (height + frame.color.weight)

/-- A context that accepts the height of a tree makes the whole balanced. -/
theorem balanced_plug (context : List (Frame α)) (tree : Tree α) (height : Nat)
    (accepts : Accepts context height) (balanced : Balanced tree height)
    (colors : headColor context = .red → tree.color = .black) :
    ∃ whole, Balanced (plug context tree) whole := by
  induction context generalizing tree height with
  | nil => exact ⟨height, balanced⟩
  | cons frame rest ih =>
    obtain ⟨sibling, reds, above⟩ := accepts
    refine ih _ _ above
      ((balanced_join _ _ _ _ _ _).mpr ⟨height, rfl, balanced, sibling, ?_⟩) ?_
    · intro red
      exact ⟨colors red, (reds red).1⟩
    · intro headRed
      rw [color_fill]
      rcases color_cases frame.color with black | red
      · exact black
      · rw [(reds red).2] at headRed
        cases headRed

/-- A balanced tree splits at every hole into halves that fit. -/
theorem balanced_split (context : List (Frame α)) (tree : Tree α) (whole : Nat)
    (balanced : Balanced (plug context tree) whole) :
    ∃ height, Accepts context height ∧ Balanced tree height ∧
      (headColor context = .red → tree.color = .black) := by
  induction context generalizing tree with
  | nil => exact ⟨whole, trivial, balanced, fun red => by cases red⟩
  | cons frame rest ih =>
    obtain ⟨height, above, here, colors⟩ := ih _ balanced
    obtain ⟨below, rfl, inner, sibling, reds⟩ := (balanced_join _ _ _ _ _ _).mp here
    rw [color_fill] at colors
    refine ⟨below, ⟨sibling, ?_, above⟩, inner, fun red => (reds red).1⟩
    intro red
    refine ⟨(reds red).2, ?_⟩
    rcases color_cases (headColor rest) with black | headRed
    · exact black
    · rw [colors headRed] at red
      cases red

section Insertion

/-- The parent and the uncle of a red node are red: they turn black and the
grandparent red, which moves the red node up two levels. -/
theorem recolored_accepts {parent grand : Frame α} {rest : List (Frame α)} {height : Nat}
    (accepts : Accepts (parent :: grand :: rest) height) (parentRed : parent.color = .red)
    (uncleRed : grand.sibling.color = .red) (balanced : Balanced tree height) :
    Accepts rest (height + 1) ∧
      Balanced (join grand.side .red (join parent.side .black tree parent.entry parent.sibling)
        grand.entry (grand.sibling.paint .black)) (height + 1) := by
  obtain ⟨sibling, reds, uncle, _, above⟩ := accepts
  have grandBlack : grand.color = .black := (reds parentRed).2
  rw [parentRed, weight_red, Nat.add_zero] at uncle above
  rw [grandBlack, weight_black] at above
  exact ⟨above, balanced_red grand.side grand.entry
    (balanced_black parent.side parent.entry balanced sibling)
    (balanced_paint_red uncle uncleRed) (color_join _ _ _ _ _) (color_paint_black _)⟩

end Insertion

section Deletion

/-! A hole whose tree is one black node short: the context accepts trees one higher
than the tree in the hole. -/

variable {frame : Frame α} {rest : List (Frame α)} {height : Nat} {near far : Tree α} {entry : α}

section

variable (accepts : Accepts (frame :: rest) (height + 1))
include accepts

/-- The sibling of a subtree that has become too low is a node. -/
theorem short_sibling :
    ∃ color inner entry outer, frame.sibling = join frame.side color inner entry outer :=
  balanced_positive frame.side accepts.1

/-- A red sibling is rotated up, which leaves the hole below a red node. -/
theorem accepts_sibling_red (sibling : frame.sibling = join frame.side .red near entry far) :
    frame.color = .black ∧
      Accepts ({ side := frame.side, color := .red, entry := frame.entry, sibling := near } ::
        { side := frame.side, color := .black, entry := entry, sibling := far } :: rest)
        (height + 1) := by
  obtain ⟨balanced, reds, above⟩ := accepts
  rw [sibling] at balanced reds
  obtain ⟨nearBalanced, farBalanced, nearBlack, _⟩ := balanced_red_parts frame.side balanced
  have black : frame.color = .black := by
    rcases color_cases frame.color with black | red
    · exact black
    · have impossible := (reds red).1
      rw [color_join] at impossible
      cases impossible
  rw [black] at above
  exact ⟨black, nearBalanced, fun _ => ⟨nearBlack, rfl⟩, farBalanced, (fun red => by cases red),
    above⟩

/-- A black sibling with a red far child: one rotation restores the height. -/
theorem balanced_far_red (balanced : Balanced tree height)
    (sibling : frame.sibling = join frame.side .black near entry far) (farRed : far.color = .red) :
    ∃ whole, Balanced (plug rest (join frame.side frame.color
      (join frame.side .black tree frame.entry near) entry (far.paint .black))) whole := by
  obtain ⟨siblingBalanced, reds, above⟩ := accepts
  rw [sibling] at siblingBalanced
  obtain ⟨nearBalanced, farBalanced⟩ := balanced_black_parts frame.side siblingBalanced
  refine balanced_plug rest _ _ above ((balanced_join _ _ _ _ _ _).mpr ⟨height + 1, rfl,
    balanced_black frame.side frame.entry balanced nearBalanced,
    balanced_paint_red farBalanced farRed, fun _ => ⟨color_join _ _ _ _ _, color_paint_black _⟩⟩) ?_
  intro headRed
  rw [color_join]
  rcases color_cases frame.color with black | red
  · exact black
  · rw [(reds red).2] at headRed
    cases headRed

/-- A black sibling with a red near child is rotated so that its far child is red. -/
theorem accepts_near_red {a b : Tree α} {inner : α} (sibling : frame.sibling =
      join frame.side .black (join frame.side .red a inner b) entry far)
    (farBlack : far.color = .black) :
    Accepts ({ frame with
      sibling := join frame.side .black a inner (join frame.side .red b entry far) } :: rest)
      (height + 1) := by
  obtain ⟨siblingBalanced, reds, above⟩ := accepts
  rw [sibling] at siblingBalanced
  obtain ⟨nearBalanced, farBalanced⟩ := balanced_black_parts frame.side siblingBalanced
  obtain ⟨aBalanced, bBalanced, _, bBlack⟩ := balanced_red_parts frame.side nearBalanced
  exact ⟨balanced_black frame.side inner aBalanced
    (balanced_red frame.side entry bBalanced farBalanced bBlack farBlack),
    fun red => ⟨color_join _ _ _ _ _, (reds red).2⟩, above⟩

/-- A black sibling with black children turns red, which leaves the two trees at the
frame level with each other. -/
theorem balanced_level (balanced : Balanced tree height)
    (sibling : frame.sibling = join frame.side .black near entry far)
    (nearBlack : near.color = .black) (farBlack : far.color = .black) :
    Balanced (join frame.side .black tree frame.entry (join frame.side .red near entry far))
      (height + 1) := by
  have siblingBalanced := accepts.1
  rw [sibling] at siblingBalanced
  obtain ⟨nearBalanced, farBalanced⟩ := balanced_black_parts frame.side siblingBalanced
  exact balanced_black frame.side frame.entry balanced
    (balanced_red frame.side entry nearBalanced farBalanced nearBlack farBlack)

end

/-- The entry of a node does not matter for the balance. -/
theorem balanced_entry (context : List (Frame α)) (side : Side) (color : Color)
    (inner outer : Tree α) (entry' : α)
    (balanced : ∃ whole, Balanced (plug context (join side color inner entry outer)) whole) :
    ∃ whole, Balanced (plug context (join side color inner entry' outer)) whole := by
  obtain ⟨whole, balanced⟩ := balanced
  obtain ⟨height, accepts, here, colors⟩ := balanced_split _ _ _ balanced
  rw [color_join] at colors
  exact balanced_plug context _ height accepts
    ((balanced_join _ _ _ _ _ _).mpr ((balanced_join _ _ _ _ _ _).mp here))
    (fun red => (color_join _ _ _ _ _).trans (colors red))

/-- Under a node without one child there is at most one node, and it is red. -/
theorem balanced_only_child {side : Side} {color : Color} {promoted : Tree α}
    (balanced : Balanced (join side color .leaf entry promoted) height) :
    (promoted = .leaf ∧ height = color.weight) ∨
      (promoted.color = .red ∧ Balanced promoted 0 ∧ color = .black ∧ height = 1) := by
  obtain ⟨below, rfl, leaf, outer, reds⟩ := (balanced_join _ _ _ _ _ _).mp balanced
  obtain rfl : below = 0 := leaf
  rcases color_cases promoted.color with black | red
  · refine .inl ⟨?_, Nat.zero_add _⟩
    rcases tree_cases .left promoted with leaf | ⟨color', inner, entry', far, rfl⟩
    · exact leaf
    · rw [color_join] at black
      obtain ⟨_, same, _⟩ := (balanced_join _ _ _ _ _ _).mp outer
      rw [black, weight_black] at same
      omega
  · have black : color = .black := by
      rcases color_cases color with black | isRed
      · exact black
      · have impossible := (reds isRed).2
        rw [red] at impossible
        cases impossible
    exact .inr ⟨red, outer, black, by rw [black, weight_black]⟩

end Deletion

end RedBlack
