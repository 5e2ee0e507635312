import Mathlib.Data.List.Perm.Subperm
import Balrog.RbtShape

/-!
# Order and minimum in the red-black tree

The tree is ordered by key along its entries. `rbt_minimum` returns the node of the
first entry. Its loop and those that search for a key end because a tree has fewer
nodes than there are addresses.
-/

namespace Balrog.RbtSearch

open RedBlack RbtNodes RbtShape List

/-- The keys rise from left to right. -/
def Ordered (tree : RedBlack.Tree Entry) : Prop := (tree.toList.map Entry.key).Pairwise (· < ·)

/-- A store that holds a red-black search tree. -/
structure Valid (store : Store) (tree : RedBlack.Tree Entry) : Prop where
  represents : Represents store tree
  ordered : Ordered tree
  black : tree.color = .black
  balanced : ∃ height, Balanced tree height

/-- The result of a fix-up: a balanced tree with a black root and the given entries. -/
def Settles (result : Option Store) (entries : List Entry) : Prop :=
  ∃ store tree, result = some store ∧ Represents store tree ∧ tree.toList = entries ∧
    tree.color = .black ∧ ∃ height, Balanced tree height

variable {store : Store} {tree : RedBlack.Tree Entry}

/-- A tree has fewer nodes than there are addresses. -/
theorem represents_size (represents : Represents store tree) :
    tree.toList.length < addresses := by
  have within : places tree ⊆ List.range' 1 (addresses - 1) := by
    intro address member
    obtain ⟨positive, bound⟩ := represents.valid address member
    rw [mem_range']
    exact ⟨address - 1, by omega, by omega⟩
  have short := (subperm_of_subset represents.distinct within).length_le
  rw [places, length_map, length_range'] at short
  have some : 0 < addresses := by decide
  omega

variable {context : List (Frame Entry)}

/-- A context has fewer frames than there are addresses. -/
theorem represents_depth (represents : Represents store (plug context tree)) :
    context.length + tree.toList.length < addresses := by
  have frames : context.length ≤ (contextPlaces context).length := by
    clear represents
    induction context with
    | nil => simp
    | cons frame rest ih =>
      simp only [contextPlaces, length_cons, length_append]
      omega
  have size := represents_size represents
  have same := (places_plug context tree).length_eq
  simp only [places, length_map, length_append] at same
  omega

variable {color : Color} {left right : RedBlack.Tree Entry} {entry : Entry}

theorem ordered_around (ordered : Ordered (plug context (.node color left entry right))) :
    (∀ other ∈ left.toList, other.key < entry.key) ∧
      (∀ other ∈ right.toList, entry.key < other.key) := by
  unfold Ordered at ordered
  rw [to_list_plug, RedBlack.Tree.toList, pairwise_map] at ordered
  simp only [pairwise_append, pairwise_cons] at ordered
  exact ⟨fun other member => ordered.1.2.1.2.2 other member entry mem_cons_self,
    ordered.1.2.1.2.1.1⟩

/-- Following left children leads to the first entry of a subtree. The frames passed
are all at the left. -/
theorem leftmost_spec (fuel : Nat)
    (represents : Represents store (plug context (.node color left entry right)))
    (enough : left.toList.length < fuel) :
    ∃ lower firstColor first rest,
      plug lower (.node firstColor .leaf first rest) = .node color left entry right ∧
      before lower = [] ∧ leftmost fuel store entry.address = some first.address := by
  induction left generalizing fuel context color entry right with
  | leaf =>
    obtain ⟨more, rfl⟩ : ∃ more, fuel = more + 1 := ⟨fuel - 1, by simp at enough; omega⟩
    have here : Represents store (plug context (join .left color .leaf entry right)) := represents
    refine ⟨[], color, entry, right, rfl, rfl, ?_⟩
    simp [leftmost, represents_load here]
  | node leftColor deeper leftEntry leftRight deeperHypothesis _ =>
    obtain ⟨more, rfl⟩ : ∃ more, fuel = more + 1 := ⟨fuel - 1, by omega⟩
    simp only [RedBlack.Tree.toList, length_append, length_cons] at enough
    have here : Represents store
      (plug context (join .left color (.node leftColor deeper leftEntry leftRight) entry right)) :=
      represents
    have positive := (represents_focus (represents_inner here :
      Represents store (plug _ (join .left leftColor deeper leftEntry leftRight)))).positive
    obtain ⟨lower, firstColor, first, rest, same, leftOnly, result⟩ := deeperHypothesis more
      (represents_inner here) (by omega)
    refine ⟨lower ++ [{ side := .left, color := color, entry := entry, sibling := right }],
      firstColor, first, rest, ?_, ?_, ?_⟩
    · rw [plug_append, same]
      rfl
    · rw [before_append, leftOnly]
      rfl
    · rw [leftmost, represents_load here]
      simp only [Option.bind_eq_bind, Option.bind_some, image_child]
      rw [if_neg (by exact Nat.ne_of_gt positive)]
      exact result

/-- `rbt_minimum` returns the node of the first entry, or null for the empty tree. -/
theorem rbt_minimum_spec (valid : Valid store tree) :
    (tree.toList = [] ∧ rbtMinimum store = some 0) ∨
      ∃ first rest, tree.toList = first :: rest ∧ rbtMinimum store = some first.address := by
  have root := valid.represents.root
  cases tree with
  | leaf =>
    rw [pointer_leaf] at root
    exact .inl ⟨rfl, by rw [rbtMinimum, if_pos root]⟩
  | node color left entry right =>
    have here : Represents store (plug [] (join .left color left entry right)) := valid.represents
    have positive := (represents_focus here).positive
    have size := represents_size valid.represents
    simp only [RedBlack.Tree.toList, length_append, length_cons] at size
    obtain ⟨lower, firstColor, first, rest, same, leftOnly, result⟩ :=
      leftmost_spec addresses here (by omega)
    refine .inr ⟨first, rest.toList ++ after lower, ?_, ?_⟩
    · rw [← same, to_list_plug, leftOnly]
      simp [RedBlack.Tree.toList]
    · have rootIs : store.root = entry.address := root
      rw [rbtMinimum, rootIs, if_neg (by omega), result]

end Balrog.RbtSearch
