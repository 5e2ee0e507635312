import Mathlib.Data.List.Infix

/-!
# The longest prefix of a path that a table knows

A table has values for some paths, which are lists of keys. `longest` finds the longest prefix of
a path with a value, and yields that value with the keys behind the prefix. One more entry in the
table governs the paths that have it as a prefix with no longer entry behind it, and leaves every
other path as it was.
-/

namespace LongestPrefix

open Function List Option

universe u v

variable {Key : Type u} {Value : Type v}

/-- The value of the longest known prefix, and the keys behind it. -/
def longest (table : List Key → Option Value) : List Key → Option (Value × List Key)
  | [] => (table []).map fun value => (value, [])
  | key :: rest =>
    (longest (fun keys => table (key :: keys)) rest).or
      ((table []).map fun value => (value, key :: rest))

/-- No entry of the table is a prefix of the path that is longer than `known`. -/
def Last (table : List Key → Option Value) (known rest : List Key) : Prop :=
  ∀ more, more ≠ [] → more <+: rest → table (known ++ more) = none

/-- The known part of a path is its longest one that the table has an entry for. -/
def Governs (table : List Key → Option Value) (known path : List Key) : Prop :=
  ∃ rest, path = known ++ rest ∧ Last table known rest

variable {table : List Key → Option Value}

/-- Nothing is known about any prefix. -/
theorem longest_eq_none {path : List Key} :
    longest table path = none ↔ ∀ known, known <+: path → table known = none := by
  induction path generalizing table with
  | nil => simp [longest]
  | cons key rest ih =>
    rw [longest, or_eq_none_iff, ih, map_eq_none_iff]
    constructor
    · rintro ⟨below, here⟩ known isPrefix
      cases known with
      | nil => exact here
      | cons first more =>
        obtain ⟨rfl, inside⟩ := cons_prefix_cons.mp isPrefix
        exact below more inside
    · intro unknown
      exact ⟨fun known inside => unknown (key :: known) (cons_prefix_cons.mpr ⟨rfl, inside⟩),
        unknown [] nil_prefix⟩

theorem longest_eq_some {path : List Key} {value : Value} {rest : List Key}
    (found : longest table path = some (value, rest)) :
    ∃ known, path = known ++ rest ∧ table known = some value ∧ Last table known rest := by
  induction path generalizing table with
  | nil =>
    obtain ⟨here, isHere, same⟩ := map_eq_some_iff.mp found
    obtain ⟨rfl, rfl⟩ := Prod.mk.inj same
    exact ⟨[], rfl, isHere, fun more nonempty isPrefix =>
      absurd (prefix_nil.mp isPrefix) nonempty⟩
  | cons key behind ih =>
    rw [longest, or_eq_some_iff] at found
    rcases found with below | ⟨nothing, here⟩
    · obtain ⟨known, split, isKnown, last⟩ := ih below
      exact ⟨key :: known, by rw [split, cons_append], isKnown, last⟩
    · obtain ⟨value, isHere, same⟩ := map_eq_some_iff.mp here
      obtain ⟨rfl, rfl⟩ := Prod.mk.inj same
      refine ⟨[], rfl, isHere, fun more nonempty isPrefix => ?_⟩
      cases more with
      | nil => exact absurd rfl nonempty
      | cons first more =>
        obtain ⟨rfl, inside⟩ := cons_prefix_cons.mp isPrefix
        exact longest_eq_none.mp nothing more inside

/-- A known prefix with nothing longer behind it is found. -/
theorem longest_of_last {known rest : List Key} {value : Value}
    (isKnown : table known = some value) (last : Last table known rest) :
    longest table (known ++ rest) = some (value, rest) := by
  induction known generalizing table with
  | cons key known ih =>
    rw [cons_append, longest, ih isKnown last, some_or]
  | nil =>
    cases rest with
    | nil => simp [longest, isKnown]
    | cons key rest =>
      have nothing : longest (fun keys => table (key :: keys)) rest = none :=
        longest_eq_none.mpr fun more inside =>
          last (key :: more) (cons_ne_nil _ _) (cons_prefix_cons.mpr ⟨rfl, inside⟩)
      simp [longest, nothing, isKnown]

section Update

variable [DecidableEq Key] {table : List Key → Option Value} {known path : List Key}

/-- A new entry is found on the paths that it governs. -/
theorem longest_update_governed {rest : List Key} (value : Value) (last : Last table known rest) :
    longest (update table known (some value)) (known ++ rest) = some (value, rest) := by
  refine longest_of_last (update_self _ _ _) fun more nonempty isPrefix => ?_
  have longer : known ++ more ≠ known := fun same =>
    nonempty (append_cancel_left (same.trans (append_nil known).symm))
  rw [update_of_ne longer]
  exact last more nonempty isPrefix

/-- A new entry leaves the paths alone that it does not govern. -/
theorem longest_update_other (value : Value) (other : ¬ Governs table known path) :
    longest (update table known (some value)) path = longest table path := by
  cases found : longest table path with
  | none =>
    have unknown := longest_eq_none.mp found
    refine longest_eq_none.mpr fun probe inside => ?_
    have different : probe ≠ known := by
      rintro rfl
      obtain ⟨rest, rfl⟩ := inside
      exact other ⟨rest, rfl, fun more _ isPrefix =>
        unknown _ ((prefix_append_right_inj probe).mpr isPrefix)⟩
    rw [update_of_ne different]
    exact unknown probe inside
  | some result =>
    obtain ⟨here, rest⟩ := result
    obtain ⟨longestKnown, rfl, isKnown, last⟩ := longest_eq_some found
    refine longest_of_last ?_ fun more nonempty isPrefix => ?_
    · have different : longestKnown ≠ known := by
        rintro rfl
        exact other ⟨rest, rfl, last⟩
      rw [update_of_ne different]
      exact isKnown
    · have different : longestKnown ++ more ≠ known := by
        rintro rfl
        obtain ⟨behind, rfl⟩ := isPrefix
        refine other ⟨behind, (append_assoc _ _ _).symm, fun further _ inside => ?_⟩
        rw [append_assoc]
        exact last (more ++ further) (append_ne_nil_of_left_ne_nil nonempty _)
          ((prefix_append_right_inj more).mpr inside)
      rw [update_of_ne different]
      exact last more nonempty isPrefix

end Update

end LongestPrefix
