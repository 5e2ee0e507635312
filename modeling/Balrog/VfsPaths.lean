import Mathlib.Data.List.TakeWhile
import Mathlib.Tactic.Common

/-!
# The texts of paths

A path comes with any number of slashes between its components. `vfs_sanitize_path` leaves one of
each run; the loops of the virtual file system then pass over one slash at a time and take the part
up to the next one. They see exactly the components of the path, and the text behind the first few
parts has the other components.

Positions in a text are the texts behind them. Texts have no zero byte.
-/

namespace Balrog.VfsPaths

open List

/-- Paths are lists of characters, without the zero at their end. -/
abbrev Text := List Char

/-- The text that `__vfs_get_next_path_part_len` measures, up to the next slash. -/
def nextPart (text : Text) : Text := text.takeWhile (· != '/')

/-- What follows the first part of a path, from its slash on. -/
def afterPart (text : Text) : Text := text.dropWhile (· != '/')

/-- The path without one leading slash. -/
def skipSlash : Text → Text
  | '/' :: rest => rest
  | text => text

/-- The path without its leading slashes. -/
def skipSlashes (text : Text) : Text := text.dropWhile (· == '/')

theorem part_append (text : Text) : nextPart text ++ afterPart text = text :=
  takeWhile_append_dropWhile

theorem skipSlash_length (text : Text) : (skipSlash text).length ≤ text.length := by
  rw [skipSlash.eq_def]
  split
  · exact Nat.le_succ _
  · exact Nat.le_refl _

theorem skipSlashes_length (text : Text) : (skipSlashes text).length ≤ text.length :=
  (dropWhile_sublist _).length_le

variable {text : Text}

/-- Passing a part makes the text shorter. -/
theorem afterPart_length (nonempty : nextPart text ≠ []) :
    (afterPart text).length < text.length := by
  have sum := congrArg List.length (part_append text)
  have positive := length_pos_iff.mpr nonempty
  rw [length_append] at sum
  omega

/-- What is left behind the slashes starts with a part. -/
theorem nextPart_skipSlashes (nonempty : skipSlashes text ≠ []) :
    nextPart (skipSlashes text) ≠ [] := by
  cases rest : skipSlashes text with
  | nil => exact absurd rest nonempty
  | cons first more =>
    have notSlash : (first == '/') = false := by
      have head := head?_dropWhile_not (· == '/') text
      rw [← skipSlashes, rest] at head
      simpa using head
    simp only [nextPart, takeWhile_cons, bne, notSlash, Bool.not_false, if_true]
    exact cons_ne_nil _ _

/-- One round of `vfs_sanitize_path` takes something off the text. -/
theorem round_length (nonempty : text ≠ []) :
    (afterPart (skipSlashes text)).length < text.length := by
  have skipped := skipSlashes_length text
  by_cases none : skipSlashes text = []
  · rw [none]
    exact length_pos_iff.mpr nonempty
  · exact Nat.lt_of_lt_of_le (afterPart_length (nextPart_skipSlashes none)) skipped

/-- `vfs_sanitize_path`: runs of slashes become one slash. -/
def sanitizePath (text : Text) : Text :=
  if _ : text = [] then []
  else
    (if text.head? = some '/' then ['/'] else []) ++ nextPart (skipSlashes text) ++
      sanitizePath (afterPart (skipSlashes text))
termination_by text.length
decreasing_by exact round_length ‹_›

/-- The parts of a text with one slash between them, up to an empty one. -/
def partsFrom (text : Text) : List Text :=
  if _ : nextPart text = [] then [] else nextPart text :: partsFrom (skipSlash (afterPart text))
termination_by text.length
decreasing_by exact Nat.lt_of_le_of_lt (skipSlash_length _) (afterPart_length ‹_›)

/-- The parts that the loop of `__vfs_insert_nodes` goes through. -/
def parts (text : Text) : List Text := partsFrom (skipSlash text)

/-- The path before it is sanitized: one that does not start with a slash is put behind the
working directory, if there is one. -/
def absolutePath (cwd : Option Text) (path : Text) : Text :=
  match cwd with
  | some directory => if path.head? = some '/' then path else directory ++ '/' :: path
  | none => path

/-- The loop of `__vfs_get_root_path`. -/
def dropParts : Nat → Text → Text
  | 0, text => text
  | count + 1, text => dropParts count (afterPart (skipSlash text))

/-- `__vfs_get_root_path` -/
def getRootPath (depth : Nat) (path : Text) : Text :=
  if 0 < depth ∧ dropParts depth path = [] then ['/'] else dropParts depth path

/-- The components of a path, which any number of slashes may separate. -/
def components (text : Text) : List Text :=
  if _ : skipSlashes text = [] then []
  else nextPart (skipSlashes text) :: components (afterPart (skipSlashes text))
termination_by text.length
decreasing_by
  exact Nat.lt_of_lt_of_le (afterPart_length (nextPart_skipSlashes ‹_›)) (skipSlashes_length text)

/-- Behind a part is the end, or a slash. -/
def Ends (text : Text) : Prop := text = [] ∨ text.head? = some '/'

/-- A part ends at a slash or at the end of the text. -/
theorem afterPart_ends (text : Text) : Ends (afterPart text) := by
  cases rest : afterPart text with
  | nil => exact .inl rfl
  | cons first more =>
    have head := head?_dropWhile_not (· != '/') text
    rw [← afterPart, rest] at head
    exact .inr (by simpa using head)

theorem ne_slash_of_mem {char : Char} (member : char ∈ nextPart text) :
    char ≠ '/' := by
  have kept := @List.mem_takeWhile_imp _ (· != '/') text char member
  simpa using kept

/-- A part in front of a slash or of nothing is read back. -/
theorem nextPart_append {text rest : Text} (ends : Ends rest) :
    nextPart (nextPart text ++ rest) = nextPart text ∧
      afterPart (nextPart text ++ rest) = rest := by
  have inside : ∀ char ∈ nextPart text, (char != '/') = true := fun char member =>
    bne_iff_ne.mpr (ne_slash_of_mem member)
  have stops : rest.takeWhile (· != '/') = [] ∧ rest.dropWhile (· != '/') = rest := by
    rcases ends with rfl | head
    · exact ⟨rfl, rfl⟩
    · cases rest with
      | nil => cases head
      | cons first more =>
        obtain rfl := Option.some.inj head
        exact ⟨rfl, rfl⟩
  constructor
  · rw [nextPart, takeWhile_append_of_pos inside, stops.1, append_nil]
  · rw [afterPart, dropWhile_append_of_pos inside, stops.2]

/-- Sanitizing keeps where a part ends. -/
theorem sanitizePath_ends (ends : Ends text) : Ends (sanitizePath text) := by
  rcases ends with rfl | head
  · rw [sanitizePath, dif_pos rfl]
    exact .inl rfl
  · have nonempty : text ≠ [] := by
      rintro rfl
      cases head
    rw [sanitizePath, dif_neg nonempty, if_pos head]
    exact .inr rfl

/-- What is in front of the first part. -/
def lead (text : Text) : Text := if text.head? = some '/' then ['/'] else []

/-- One round of the loop: a slash where there were some, then the next part. -/
theorem sanitizePath_eq (nonempty : skipSlashes text ≠ []) :
    sanitizePath text = lead text ++
      (nextPart (skipSlashes text) ++ sanitizePath (afterPart (skipSlashes text))) := by
  have some : text ≠ [] := by
    rintro rfl
    exact nonempty rfl
  rw [sanitizePath, dif_neg some, append_assoc, lead]

/-- No slash is skipped in front of a part. -/
theorem skip_part {text rest : Text} (nonempty : nextPart text ≠ []) :
    skipSlash (nextPart text ++ rest) = nextPart text ++ rest ∧
      skipSlashes (nextPart text ++ rest) = nextPart text ++ rest := by
  cases isPart : nextPart text with
  | nil => exact absurd isPart nonempty
  | cons first more =>
    have member : first ∈ nextPart text := isPart ▸ mem_cons_self
    have notSlash := ne_slash_of_mem member
    constructor
    · rw [cons_append, skipSlash.eq_def]
      split
      · next same => exact absurd (List.cons.inj same).1 notSlash
      · rfl
    · simp [skipSlashes, notSlash]

/-- Behind the slashes, a sanitized text starts with the first part of the text. -/
theorem skip_sanitizePath (nonempty : skipSlashes text ≠ []) :
    skipSlash (sanitizePath text) =
        nextPart (skipSlashes text) ++ sanitizePath (afterPart (skipSlashes text)) ∧
      skipSlashes (sanitizePath text) =
        nextPart (skipSlashes text) ++ sanitizePath (afterPart (skipSlashes text)) := by
  obtain ⟨one, all⟩ := @skip_part _ (sanitizePath (afterPart (skipSlashes text)))
    (nextPart_skipSlashes nonempty)
  rw [sanitizePath_eq nonempty, lead]
  split
  · exact ⟨rfl, all⟩
  · exact ⟨one, all⟩

/-- A path of slashes alone becomes one slash. -/
theorem sanitizePath_slashes (slashes : skipSlashes text = []) :
    sanitizePath text = [] ∧ text = [] ∨ sanitizePath text = ['/'] := by
  by_cases none : text = []
  · rw [sanitizePath, dif_pos none]
    exact .inl ⟨rfl, none⟩
  · have head : text.head? = some '/' := by
      cases text with
      | nil => exact absurd rfl none
      | cons first rest =>
        have isSlash := dropWhile_eq_nil_iff.mp slashes first mem_cons_self
        simpa using isSlash
    rw [sanitizePath, dif_neg none, if_pos head, slashes]
    right
    rw [afterPart, dropWhile_nil, sanitizePath, dif_pos rfl]
    rfl

theorem components_slashes (slashes : skipSlashes text = []) :
    components text = [] := by
  rw [components, dif_pos slashes]

/-- The components are the first part and the components behind it. -/
theorem components_cons (nonempty : skipSlashes text ≠ []) :
    components text =
      nextPart (skipSlashes text) :: components (afterPart (skipSlashes text)) := by
  rw [components, dif_neg nonempty]

/-- The parts of a sanitized path are the components of the path. -/
theorem parts_sanitizePath (text : Text) : parts (sanitizePath text) = components text := by
  fun_induction components text with
  | case1 text slashes =>
    rcases sanitizePath_slashes slashes with ⟨none, _⟩ | one
    · rw [none, parts, partsFrom]
      rfl
    · rw [one, parts, partsFrom]
      rfl
  | case2 text nonempty ih =>
    obtain ⟨part, rest⟩ := @nextPart_append (skipSlashes text) _
      (sanitizePath_ends (afterPart_ends (skipSlashes text)))
    rw [parts, (skip_sanitizePath nonempty).1, partsFrom, part, rest,
      dif_neg (nextPart_skipSlashes nonempty)]
    exact congrArg _ ih

/-- Sanitizing keeps the components. -/
theorem components_sanitizePath (text : Text) :
    components (sanitizePath text) = components text := by
  fun_induction components text with
  | case1 text slashes =>
    rcases sanitizePath_slashes slashes with ⟨none, _⟩ | one
    · rw [none, components_slashes rfl]
    · rw [one, components_slashes rfl]
  | case2 text nonempty ih =>
    obtain ⟨part, rest⟩ := @nextPart_append (skipSlashes text) _
      (sanitizePath_ends (afterPart_ends (skipSlashes text)))
    have further : skipSlashes (sanitizePath text) ≠ [] := by
      rw [(skip_sanitizePath nonempty).2]
      exact append_ne_nil_of_left_ne_nil (nextPart_skipSlashes nonempty) _
    rw [components_cons further, (skip_sanitizePath nonempty).2, part, rest, ih]

/-- The text that the device gets, before an empty one is replaced. -/
theorem dropParts_sanitizePath (known : List Text) {rest : List Text}
    (split : components text = known ++ rest) :
    ∃ behind, dropParts known.length (sanitizePath text) = sanitizePath behind ∧
      components behind = rest ∧ (known = [] → behind = text) := by
  induction known generalizing text with
  | nil => exact ⟨text, rfl, split, fun _ => rfl⟩
  | cons name known ih =>
    have nonempty : skipSlashes text ≠ [] := by
      intro slashes
      rw [components_slashes slashes] at split
      cases split
    have next : components (afterPart (skipSlashes text)) = known ++ rest := by
      rw [components_cons nonempty] at split
      exact (List.cons.inj split).2
    obtain ⟨behind, dropped, remaining, _⟩ := ih next
    refine ⟨behind, ?_, remaining, fun impossible => by cases impossible⟩
    rw [length_cons, dropParts, (skip_sanitizePath nonempty).1,
      (nextPart_append (sanitizePath_ends (afterPart_ends _))).2]
    exact dropped

/-- The text that the device gets has the components behind the names that lead to its node; it
is a slash when there are none, unless the path is empty. -/
theorem getRootPath_spec {known rest : List Text} (split : components text = known ++ rest) :
    components (getRootPath known.length (sanitizePath text)) = rest ∧
      (rest = [] → text ≠ [] → getRootPath known.length (sanitizePath text) = ['/']) := by
  obtain ⟨behind, dropped, remaining, whole⟩ := dropParts_sanitizePath known split
  have none : components behind = [] → sanitizePath behind = [] ∧ behind = [] ∨
      sanitizePath behind = ['/'] := by
    intro none
    refine sanitizePath_slashes ?_
    by_contra nonempty
    rw [components_cons nonempty] at none
    cases none
  rw [getRootPath, dropped]
  split_ifs with replaced
  · -- nothing is left behind the names
    have empty : components behind = [] := by
      rw [← components_sanitizePath, replaced.2]
      exact components_slashes rfl
    rw [← remaining, empty]
    exact ⟨components_slashes rfl, fun _ _ => rfl⟩
  · refine ⟨(components_sanitizePath behind).trans remaining, fun isEmpty someText => ?_⟩
    rcases none (remaining.trans isEmpty) with ⟨nothing, isNil⟩ | slash
    · have atRoot : known = [] := by
        by_contra further
        exact replaced ⟨length_pos_iff.mpr further, nothing⟩
      exact absurd ((whole atRoot).symm.trans isNil) someText
    · exact slash

/-- No part is empty. -/
theorem partsFrom_nonempty : ∀ part ∈ partsFrom text, part ≠ [] := by
  fun_induction partsFrom text with
  | case1 => exact forall_mem_nil _
  | case2 text nonempty ih => exact forall_mem_cons.mpr ⟨nonempty, ih⟩

theorem skipSlash_slash (head : text.head? = some '/') (more : Text) :
    skipSlash (text ++ more) = skipSlash text ++ more := by
  cases text with
  | nil => cases head
  | cons first rest =>
    obtain rfl := Option.some.inj head
    rfl

theorem skipSlash_other (head : text.head? ≠ some '/') : skipSlash text = text := by
  rw [skipSlash.eq_def]
  split
  · exact absurd rfl head
  · rfl

/-- A slash at the end adds no part. -/
theorem partsFrom_slash (text : Text) : partsFrom (text ++ ['/']) = partsFrom text := by
  have whole (text : Text) : nextPart (text ++ ['/']) = nextPart text ∧
      afterPart (text ++ ['/']) = afterPart text ++ ['/'] := by
    have ends : Ends (afterPart text ++ ['/']) := by
      rcases afterPart_ends text with none | head
      · rw [none]
        exact .inr rfl
      · refine .inr ?_
        rw [head?_append, head]
        rfl
    have both := @nextPart_append text _ ends
    rwa [← append_assoc, part_append] at both
  fun_induction partsFrom text with
  | case1 text empty => rw [partsFrom, dif_pos ((whole text).1.trans empty)]
  | case2 text nonempty ih =>
    obtain ⟨part, rest⟩ := whole text
    rw [partsFrom, dif_neg (part ▸ nonempty), part, rest]
    refine congrArg _ ?_
    rcases afterPart_ends text with none | head
    · rw [none]
      rfl
    · rw [skipSlash_slash head]
      exact ih

/-- A slash at the end of a path makes no difference to its parts. -/
theorem parts_trimmed (text : Text) :
    parts (if text.getLast? = some '/' then text.dropLast else text) = parts text := by
  split
  · next slash =>
    obtain ⟨front, rfl⟩ := getLast?_eq_some_iff.mp slash
    rw [dropLast_concat, parts, parts]
    cases front with
    | nil => rfl
    | cons first rest =>
      by_cases head : (first :: rest).head? = some '/'
      · rw [skipSlash_slash head, partsFrom_slash]
      · have further : (first :: rest ++ ['/']).head? ≠ some '/' := head
        rw [skipSlash_other head, skipSlash_other further, partsFrom_slash]
  · rfl

end Balrog.VfsPaths
