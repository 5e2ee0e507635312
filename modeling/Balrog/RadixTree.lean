import Mathlib.Data.List.Infix
import Mathlib.Data.Option.Basic

/-!
# Tables that point at tables

A memory of tables: each table has a word for each index, and some words point at
another table. A path of indices leads from a root to a table. The tables form a tree to
a given depth when no two paths of at most that length lead to the same table. Then a
store into one table changes what later paths find only through the word that was
stored: `reach_write` for paths past it, `reach_grow` for a new table that is hung into
the tree.
-/

namespace RadixTree

open List Option

variable {Table Index Word : Type*} (child : Word → Option Table)

/-- The table at the end of a path of indices, if every entry on it leads on. -/
def reach (memory : Table → Index → Word) : Table → List Index → Option Table
  | table, [] => some table
  | table, index :: rest => (child (memory table index)).bind (fun below => reach memory below rest)

/-- Distinct paths lead to distinct tables. -/
def Tree (memory : Table → Index → Word) (root : Table) (depth : Nat) : Prop :=
  ∀ first second table, first.length ≤ depth → second.length ≤ depth →
    reach child memory root first = some table → reach child memory root second = some table →
      first = second

/-- No path of at most this depth leads to the table. -/
def Unreached (memory : Table → Index → Word) (root : Table) (depth : Nat) (table : Table) : Prop :=
  ∀ path, path.length ≤ depth → reach child memory root path ≠ some table

variable {child} {memory : Table → Index → Word} {root table fresh : Table} {index : Index}
  {path other : List Index} {depth : Nat} {word : Word}

theorem reach_append (memory : Table → Index → Word) (root : Table) (first second : List Index) :
    reach child memory root (first ++ second) =
      (reach child memory root first).bind (fun table => reach child memory table second) := by
  induction first generalizing root with
  | nil => rfl
  | cons index rest ih =>
    simp only [cons_append, reach, bind_assoc]
    congr 1
    funext below
    exact ih below

theorem reach_concat (memory : Table → Index → Word) (root : Table) (path : List Index)
    (index : Index) : reach child memory root (path ++ [index]) =
      (reach child memory root path).bind (fun table => child (memory table index)) := by
  rw [reach_append]
  congr 1
  funext table
  simp [reach]

variable [DecidableEq Table]

/-- Stores into a table that no path leads to are not seen. -/
theorem reach_unreached (unreached : Unreached child memory root depth fresh)
    (words : Index → Word) (short : other.length ≤ depth + 1) :
    reach child (Function.update memory fresh words) root other = reach child memory root other := by
  induction other using List.reverseRecOn with
  | nil => rfl
  | append_singleton initial last ih =>
    rw [length_append, length_singleton] at short
    rw [reach_concat, reach_concat, ih (by omega)]
    cases found : reach child memory root initial with
    | none => rfl
    | some place =>
      simp only [bind_some]
      rw [Function.update_of_ne]
      rintro rfl
      exact unreached initial (by omega) found

variable [DecidableEq Index]

/-- The memory after one entry of one table has been written. -/
def write (memory : Table → Index → Word) (table : Table) (index : Index) (word : Word) :
    Table → Index → Word :=
  Function.update memory table (Function.update (memory table) index word)

theorem write_apply (memory : Table → Index → Word) (table : Table) (index : Index) (word : Word)
    (place : Table) (position : Index) : write memory table index word place position =
      if place = table ∧ position = index then word else memory place position := by
  unfold write
  by_cases samePlace : place = table
  · subst samePlace
    by_cases samePosition : position = index
    · simp [samePosition]
    · simp [samePosition]
  · simp [samePlace]

section

variable (tree : Tree child memory root depth)
include tree

section

variable (here : reach child memory root path = some table)
include here

/-- A store changes only the paths through the word that was stored. -/
theorem reach_write (short : path.length ≤ depth) (otherShort : other.length ≤ depth + 1)
    (past : ¬ path ++ [index] <+: other) :
    reach child (write memory table index word) root other = reach child memory root other := by
  induction other using List.reverseRecOn with
  | nil => rfl
  | append_singleton initial last ih =>
    rw [length_append, length_singleton] at otherShort
    have initialPast : ¬ path ++ [index] <+: initial :=
      fun isPart => past (isPart.trans (prefix_append initial [last]))
    rw [reach_concat, reach_concat, ih (by omega) initialPast]
    cases found : reach child memory root initial with
    | none => rfl
    | some place =>
      simp only [bind_some]
      rw [write_apply, if_neg]
      rintro ⟨rfl, rfl⟩
      obtain rfl := tree path initial place short (by omega) here found
      exact past (prefix_rfl)

section

variable (short : path.length < depth) (free : child (memory table index) = none)
  (unreached : Unreached child memory root depth fresh)
  (childless : ∀ position, child (memory fresh position) = none) (hung : child word = some fresh)
include short free unreached childless hung

/-- The tables after a new one without children is hung into a free place. -/
theorem reach_grow (otherShort : other.length ≤ depth) :
    reach child (write memory table index word) root other =
      if other = path ++ [index] then some fresh else reach child memory root other := by
  have hereAfter : reach child (write memory table index word) root path = some table := by
    rw [reach_write tree here short.le (by omega), here]
    intro isPart
    have lengths := isPart.length_le
    rw [length_append, length_singleton] at lengths
    omega
  by_cases isPart : path ++ [index] <+: other
  · obtain ⟨rest, rfl⟩ := isPart
    rw [reach_append, reach_concat, hereAfter, bind_some, write_apply,
      if_pos ⟨rfl, rfl⟩, hung, bind_some, reach_append, reach_concat, here, bind_some,
      free, bind_none]
    cases rest with
    | nil => simp [reach]
    | cons position others =>
      have notHere : fresh ≠ table := by
        rintro rfl
        exact unreached path short.le here
      rw [reach, write_apply, if_neg (fun same => notHere same.1), childless, if_neg (by simp)]
      rfl
  · rw [reach_write tree here short.le (by omega) isPart, if_neg]
    rintro rfl
    exact isPart prefix_rfl

theorem tree_grow : Tree child (write memory table index word) root depth := by
  intro first second place firstShort secondShort
  rw [reach_grow tree here short free unreached childless hung firstShort,
    reach_grow tree here short free unreached childless hung secondShort]
  split_ifs with isFirst isSecond isSecond
  · exact fun _ _ => isFirst.trans isSecond.symm
  · intro isFresh found
    obtain rfl := Option.some.inj isFresh
    exact absurd found (unreached second secondShort)
  · intro found isFresh
    obtain rfl := Option.some.inj isFresh
    exact absurd found (unreached first firstShort)
  · exact tree first second place firstShort secondShort

end

/-- A store into a table at the end of the tree keeps all tables. -/
theorem reach_leaf (last : path.length = depth) (short : other.length ≤ depth) :
    reach child (write memory table index word) root other = reach child memory root other := by
  refine reach_write tree here last.le (by omega) (fun isPart => ?_)
  have lengths := isPart.length_le
  rw [length_append, length_singleton] at lengths
  omega

end

end

end RadixTree
