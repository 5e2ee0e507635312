import Balrog.Strtok
import Mathlib.Data.List.Infix

/-!
# Splitting a path

`__ext2_get_path` makes an array of the components of a path. It counts the slashes to find the
length of the array, and fills it with `strtok`, which passes over repeated slashes. The array is
only closed, and its size only reported, if there are as many components as the slashes made it
expect: a path with two slashes side by side, with two at its start, or without a component gets an
array without an end.

The text of a path has a zero behind it. `garbage` is what the array holds before it is filled; a
cell without a pointer is `NULL`. That the allocation fails is left out.
-/

namespace Balrog.PathSplit

open Strtok List

/-- The character `/`. -/
def slash : UInt8 := 47

/-- The loop that counts: the number of delimiters and the place of the last one. -/
def countLoop (delimiter : UInt8) : List UInt8 → Nat → Nat × Option Nat → Nat × Option Nat
  | [], _, state => state
  | char :: rest, tmp, state =>
    countLoop delimiter rest (tmp + 1)
      (if delimiter = char then (state.1 + 1, some tmp) else state)

/-- The number of cells of the array for a text that begins at a place. Without a delimiter
`last_delimiter` is 0 and so less than any address. -/
def cellCount (delimiter : UInt8) (text : List UInt8) (src : Nat) : Nat :=
  let (count, lastDelimiter) := countLoop delimiter text src (0, none)
  let more := match lastDelimiter with
    | none => 1
    | some place => if place + 1 < src + text.length then 1 else 0
  count + more + 1

/-- The loop that fills the array, up to a number of rounds: the pointers that are written, and the
buffer. A full array is not left as long as there is a token. -/
def fillLoop (count : Nat) : Nat → Option Nat × Tokenizer → List Nat →
    Option (List Nat × List UInt8)
  | 0, _, _ => none
  | _ + 1, (none, tokens), written => some (written, tokens.buffer)
  | rounds + 1, (some token, tokens), written =>
    if written.length < count then
      fillLoop count rounds (strtok tokens none slash) (written ++ [token])
    else fillLoop count rounds (some token, tokens) written

/-- What `__ext2_get_path` returns: the array, `out_size`, `from_root` and the cut text. -/
structure Split where
  ret : Nat → Option Nat
  outSize : Nat
  fromRoot : Bool
  buffer : List UInt8

/-- `__ext2_get_path`, up to a number of rounds of its loop. -/
def getPath (rounds : Nat) (text : List UInt8) (delimiter : UInt8) (garbage : Nat → Option Nat) :
    Option Split :=
  let fromRoot := char text 0 = slash
  let src := if fromRoot then 1 else 0
  let count := cellCount delimiter (text.drop src) src
  (fillLoop count rounds (strtok ⟨text, 0⟩ (some src) slash) []).map fun (written, buffer) =>
    let filled : Nat → Option Nat := fun cell =>
      if cell < written.length then written[cell]? else garbage cell
    if written.length = count - 1 then
      { ret := fun cell => if cell = written.length then none else filled cell
        outSize := written.length
        fromRoot := fromRoot
        buffer := buffer }
    else { ret := filled, outSize := 0, fromRoot := fromRoot, buffer := buffer }

/-- The maximal runs of characters other than a slash. -/
def runs (text : List UInt8) : List (List UInt8) := fields slash text

/-- The path without one slash at its start. -/
def relative (text : List UInt8) : List UInt8 :=
  if text.head? = some slash then text.tail else text

/-- A path with components, and with one slash between them. -/
structure Simple (text : List UInt8) : Prop where
  nonempty : text ≠ []
  start : text.head? ≠ some slash
  single : ¬ [slash, slash] <:+: text

/-- The array has pointers to some strings, then `NULL`, and its size is their number. -/
def Lists (split : Split) (strings : List (List UInt8)) : Prop :=
  split.outSize = strings.length ∧ split.ret strings.length = none ∧
    ∀ cell (inside : cell < strings.length), ∃ pointer,
      split.ret cell = some pointer ∧ string split.buffer pointer = strings[cell]

section Pieces

/-- The pieces with a slash between each two. -/
def joined (piece : List UInt8) : List (List UInt8) → List UInt8
  | [] => piece
  | next :: rest => piece ++ slash :: joined next rest

/-- A piece of a path: neither a slash nor a zero. -/
def Piece (piece : List UInt8) : Prop := ∀ byte ∈ piece, byte ≠ slash ∧ byte ≠ 0

/-- The pieces that are not empty. -/
def filled (pieces : List (List UInt8)) : List (List UInt8) := pieces.filter (· ≠ [])

variable {piece next : List UInt8} {rest : List (List UInt8)}

theorem exists_joined (text : List UInt8) (plain : 0 ∉ text) :
    ∃ piece rest, text = joined piece rest ∧ ∀ part ∈ piece :: rest, Piece part := by
  induction text with
  | nil => exact ⟨[], [], rfl, by simp [Piece]⟩
  | cons byte text ih =>
    rw [mem_cons, not_or] at plain
    obtain ⟨piece, rest, rfl, parts⟩ := ih plain.2
    by_cases isSlash : byte = slash
    · refine ⟨[], piece :: rest, by rw [isSlash]; rfl, forall_mem_cons.mpr ⟨?_, parts⟩⟩
      exact fun _ inside => absurd inside not_mem_nil
    · obtain ⟨first, others⟩ := forall_mem_cons.mp parts
      refine ⟨byte :: piece, rest, by cases rest <;> rfl, forall_mem_cons.mpr ⟨?_, others⟩⟩
      exact forall_mem_cons.mpr ⟨⟨isSlash, fun zero => plain.1 zero.symm⟩, first⟩

theorem runs_joined (parts : ∀ part ∈ piece :: rest, Piece part) :
    runs (joined piece rest) = filled (piece :: rest) := by
  induction rest generalizing piece with
  | nil => exact fields_piece fun inside => (parts piece mem_cons_self slash inside).1 rfl
  | cons next rest ih =>
    obtain ⟨isPiece, later⟩ := forall_mem_cons.mp parts
    refine (fields_append (fun inside => (isPiece slash inside).1 rfl) _).trans ?_
    exact (congrArg _ (ih later)).trans (filter_append [piece] (next :: rest)).symm

/-- The loop writes the pointers that the calls return, if there is room. -/
theorem fillLoop_calls {count rounds : Nat} {str : Option Nat} {tokens : Tokenizer} {ptrs : List Nat}
    {buffer : List UInt8} (written : List Nat)
    (run : calls slash (ptrs.length + 1) str tokens = (ptrs.map some ++ [none], buffer))
    (enough : ptrs.length < rounds) (room : written.length + ptrs.length ≤ count) :
    fillLoop count rounds (strtok tokens str slash) written = some (written ++ ptrs, buffer) := by
  induction ptrs generalizing rounds str tokens written with
  | nil =>
    obtain ⟨rounds, rfl⟩ := Nat.exists_eq_add_one_of_ne_zero (Nat.ne_of_gt enough)
    rw [calls] at run
    generalize strtok tokens str slash = call at run ⊢
    obtain ⟨token, next⟩ := call
    obtain ⟨rfl, rfl⟩ : token = none ∧ next.buffer = buffer := by simpa [calls] using run
    rw [fillLoop, append_nil]
  | cons ptr ptrs ih =>
    obtain ⟨rounds, rfl⟩ := Nat.exists_eq_add_one_of_ne_zero (Nat.ne_of_gt (Nat.zero_lt_of_lt enough))
    rw [calls] at run
    generalize strtok tokens str slash = call at run ⊢
    obtain ⟨token, next⟩ := call
    obtain ⟨⟨rfl, later⟩, isBuffer⟩ := by simpa using run
    rw [length_cons] at enough room
    rw [fillLoop, if_pos (by omega), ih (written ++ [ptr]) (Prod.ext later isBuffer) (by omega)
      (by simp; omega), append_assoc, singleton_append]

theorem countLoop_joined (src count : Nat) (last : Option Nat)
    (parts : ∀ part ∈ piece :: rest, Piece part) :
    countLoop slash (joined piece rest) src (count, last) =
      (count + rest.length,
        if rest = [] then last
        else some (src + (joined piece rest).length - ((piece :: rest).getLast (by simp)).length - 1))
      := by
  have passes (piece : List UInt8) (isPiece : Piece piece) (more : List UInt8) (src : Nat)
      (state : Nat × Option Nat) : countLoop slash (piece ++ more) src state =
        countLoop slash more (src + piece.length) state := by
    induction piece generalizing src with
    | nil => rfl
    | cons byte piece ih =>
      have different : ¬ slash = byte := fun same => (isPiece byte mem_cons_self).1 same.symm
      rw [cons_append, countLoop, if_neg different,
        ih (forall_mem_cons.mp isPiece).2]
      congr 1
      simp
      omega
  induction rest generalizing piece src count last with
  | nil =>
    have whole := passes piece (parts piece mem_cons_self) [] src (count, last)
    rw [append_nil] at whole
    rw [joined, whole]
    rfl
  | cons next rest ih =>
    rw [joined, passes piece (parts piece mem_cons_self), countLoop, if_pos rfl,
      ih _ _ _ (forall_mem_cons.mp parts).2]
    refine Prod.ext (by simp; omega) ?_
    simp only [if_neg (cons_ne_nil next rest)]
    by_cases isLast : rest = []
    · subst isLast
      simp [joined]
      omega
    · rw [if_neg isLast]
      simp
      omega

/-- The last of the pieces. -/
def lastPiece (piece : List UInt8) (rest : List (List UInt8)) : List UInt8 :=
  (piece :: rest).getLast (List.cons_ne_nil piece rest)

theorem lastPiece_length (piece : List UInt8) (some' : rest ≠ []) :
    (lastPiece piece rest).length < (joined piece rest).length := by
  induction rest generalizing piece with
  | nil => exact absurd rfl some'
  | cons next rest ih =>
    have isLast : lastPiece piece (next :: rest) = lastPiece next rest := getLast_cons _
    rw [isLast, joined, length_append, length_cons]
    by_cases isEnd : rest = []
    · subst isEnd
      simp [lastPiece, joined]
      omega
    · have later := ih next isEnd
      omega

/-- The array is made for one more cell than there are slashes and, behind the last of them, text. -/
theorem cellCount_joined (src : Nat) (parts : ∀ part ∈ piece :: rest, Piece part) :
    cellCount slash (joined piece rest) src =
      rest.length + (if rest = [] ∨ lastPiece piece rest ≠ [] then 1 else 0) + 1 := by
  simp only [cellCount, countLoop_joined src 0 none parts, Nat.zero_add]
  by_cases none' : rest = []
  · simp [none']
  · have shorter := lastPiece_length piece none'
    rw [lastPiece] at shorter
    simp only [none', false_or, lastPiece]
    congr 2
    refine if_congr ?_ rfl rfl
    rw [← length_pos_iff]
    omega

theorem filled_length (piece : List UInt8) (rest : List (List UInt8)) :
    (filled (piece :: rest)).length = (filled (piece :: rest).dropLast).length +
      (if lastPiece piece rest ≠ [] then 1 else 0) := by
  have whole := dropLast_concat_getLast (cons_ne_nil piece rest)
  conv_lhs => rw [← whole, filled, filter_append, length_append]
  rw [filled, lastPiece]
  congr 1
  split <;> simp_all

/-- There are never more components than the array has cells before the last one. -/
theorem filled_le (src : Nat) (parts : ∀ part ∈ piece :: rest, Piece part) :
    (filled (piece :: rest)).length < cellCount slash (joined piece rest) src := by
  have few : (filled (piece :: rest).dropLast).length ≤ (piece :: rest).dropLast.length :=
    length_filter_le _ _
  rw [length_dropLast, length_cons, Nat.add_sub_cancel] at few
  rw [cellCount_joined src parts, filled_length]
  grind

/-- A simple text has no empty piece but perhaps the last one. -/
theorem simple_pieces (simple : Simple (joined piece rest)) :
    (∀ part ∈ (piece :: rest).dropLast, part ≠ []) ∧ (rest = [] → piece ≠ []) := by
  obtain ⟨nonempty, start, single⟩ := simple
  refine ⟨?_, fun none' => by rw [none'] at nonempty; exact nonempty⟩
  clear nonempty
  induction rest generalizing piece with
  | nil => simp
  | cons next rest ih =>
    intro part member
    rw [dropLast_cons_of_ne_nil (cons_ne_nil next rest)] at member
    rcases mem_cons.mp member with rfl | later
    · rintro rfl
      exact start rfl
    · refine ih ?_ ?_ part later
      · intro begins
        obtain ⟨more, same⟩ := head?_eq_some_iff.mp begins
        refine single ⟨piece, more, ?_⟩
        simp [joined, same]
      · intro twice
        refine single (twice.trans ⟨piece ++ [slash], [], ?_⟩)
        simp [joined]

/-- For a simple text the array has the right length. -/
theorem cellCount_simple (src : Nat) (parts : ∀ part ∈ piece :: rest, Piece part)
    (simple : Simple (joined piece rest)) :
    cellCount slash (joined piece rest) src = (filled (piece :: rest)).length + 1 := by
  obtain ⟨full, alone⟩ := simple_pieces simple
  have all : filled (piece :: rest).dropLast = (piece :: rest).dropLast :=
    filter_eq_self.mpr fun part member => decide_eq_true (full part member)
  rw [cellCount_joined src parts, filled_length, all, length_dropLast, length_cons,
    Nat.add_sub_cancel]
  by_cases none' : rest = []
  · have some' := alone none'
    subst none'
    simp [lastPiece, some']
  · simp [none']

/-- Where every piece but the last is nonempty, no two slashes are side by side. The induction is
on the pieces: a slash is followed by the next piece, or ends the text. -/
theorem not_doubled (parts : ∀ part ∈ piece :: rest, Piece part)
    (full : ∀ part ∈ (piece :: rest).dropLast, part ≠ []) :
    ¬ [slash, slash] <:+: joined piece rest := by
  have passes : ∀ (piece more : List UInt8), Piece piece → [slash, slash] <:+: piece ++ more →
      [slash, slash] <:+: more := by
    intro piece more isPiece
    induction piece with
    | nil => exact id
    | cons byte piece ih =>
      obtain ⟨isByte, isRest⟩ := forall_mem_cons.mp isPiece
      intro twice
      rcases infix_cons_iff.mp twice with begins | later
      · exact absurd (cons_prefix_cons.mp begins).1.symm isByte.1
      · exact ih isRest later
  induction rest generalizing piece with
  | nil =>
    intro twice
    have inside : slash ∈ piece := twice.subset mem_cons_self
    exact (parts piece mem_cons_self slash inside).1 rfl
  | cons next rest ih =>
    obtain ⟨isPiece, later⟩ := forall_mem_cons.mp parts
    rw [dropLast_cons_of_ne_nil (cons_ne_nil next rest)] at full
    intro twice
    rcases infix_cons_iff.mp (passes piece _ isPiece twice) with begins | inner
    · have isNext := (cons_prefix_cons.mp begins).2
      cases next with
      | cons byte next =>
        have isByte := (forall_mem_cons.mp (forall_mem_cons.mp later).1).1
        cases rest <;> exact isByte.1 (cons_prefix_cons.mp isNext).1.symm
      | nil =>
        cases rest with
        | nil => exact absurd isNext (by simp [joined])
        | cons other rest =>
          rw [dropLast_cons_of_ne_nil (cons_ne_nil other rest)] at full
          exact full [] (by simp) rfl
    · exact ih later (forall_mem_cons.mp full).2 inner

/-- An array of the right length is only made for a simple text. -/
theorem simple_of_cellCount (src : Nat) (parts : ∀ part ∈ piece :: rest, Piece part)
    (exact' : cellCount slash (joined piece rest) src = (filled (piece :: rest)).length + 1) :
    Simple (joined piece rest) := by
  have few : (filled (piece :: rest).dropLast).length ≤ (piece :: rest).dropLast.length :=
    length_filter_le _ _
  have isLength : (piece :: rest).dropLast.length = rest.length := by
    rw [length_dropLast, length_cons, Nat.add_sub_cancel]
  rw [cellCount_joined src parts, filled_length] at exact'
  have all : (filled (piece :: rest).dropLast).length = (piece :: rest).dropLast.length := by
    rw [isLength] at few ⊢
    by_cases none' : rest = []
    · rw [none', length_nil] at few ⊢
      omega
    · simp only [none', false_or] at exact'
      omega
  have full : ∀ part ∈ (piece :: rest).dropLast, part ≠ [] := by
    intro part member
    exact of_decide_eq_true (length_filter_eq_length_iff.mp all part member)
  have first : piece ≠ [] := by
    cases rest with
    | nil =>
      rintro rfl
      simp [lastPiece, filled] at exact'
    | cons next rest => exact full piece (by simp)
  obtain ⟨byte, more, rfl⟩ := exists_cons_of_ne_nil first
  have isByte := (forall_mem_cons.mp (forall_mem_cons.mp parts).1).1
  refine ⟨?_, ?_, not_doubled parts full⟩
  · cases rest <;> exact cons_ne_nil _ _
  · cases rest <;> exact fun begins => isByte.1 (Option.some.inj begins)

/-- There are no more components than characters. -/
theorem filled_rounds (piece : List UInt8) (rest : List (List UInt8)) :
    (filled (piece :: rest)).length ≤ (joined piece rest).length := by
  induction rest generalizing piece with
  | nil =>
    by_cases empty : piece = []
    · simp [filled, empty]
    · have some' := length_pos_iff.mpr empty
      simp [filled, empty, joined]
      omega
  | cons next rest ih =>
    have later := ih next
    have here : (filled (piece :: next :: rest)).length ≤ (filled (next :: rest)).length + 1 := by
      by_cases empty : piece = [] <;> simp [filled, empty]
    rw [joined, length_append, length_cons]
    omega

end Pieces

section Whole

variable {piece : List UInt8} {rest : List (List UInt8)}

/-- A run of `__ext2_get_path` on the pieces behind what comes before `src`. -/
theorem getPath_pieces (text before : List UInt8) (garbage : Nat → Option Nat)
    (isText : text = before ++ joined piece rest) (plain : 0 ∉ text)
    (isSrc : (if char text 0 = slash then 1 else 0) = before.length)
    (parts : ∀ part ∈ piece :: rest, Piece part) :
    ∃ split, getPath (text.length + 1) text slash garbage = some split ∧
      split.fromRoot = decide (char text 0 = slash) ∧
      (Simple (joined piece rest) → Lists split (filled (piece :: rest))) ∧
      (Lists split (filled (piece :: rest)) → (∀ cell, garbage cell ≠ none) →
        Simple (joined piece rest)) := by
  have rounds := filled_rounds piece rest
  have longer : (joined piece rest).length ≤ text.length := by
    rw [isText, length_append]
    omega
  have inner : 0 ∉ joined piece rest := fun zero => plain (isText ▸ mem_append_right _ zero)
  obtain ⟨ptrs, buffer, tokens, calls⟩ := @calls_tokens _ [] slash before 0 inner (by simp [Ends])
  have strings : ptrs.map (string buffer) = filled (piece :: rest) :=
    tokens.strings.trans (runs_joined parts)
  have length : ptrs.length = (filled (piece :: rest)).length := by rw [← strings, length_map]
  have less := filled_le before.length parts
  have run := fillLoop_calls [] (calls 1) (show ptrs.length < text.length + 1 by omega)
    (show [].length + _ ≤ cellCount slash (joined piece rest) before.length by
      rw [length_nil]
      omega)
  have behind : text.drop before.length = joined piece rest := by rw [isText, drop_left]
  rw [nil_append, append_nil, ← isText] at run
  simp only [getPath, isSrc, behind, run, Option.map_some]
  split
  · next closed =>
    have isCount : cellCount slash (joined piece rest) before.length =
        (filled (piece :: rest)).length + 1 := by omega
    refine ⟨_, rfl, rfl, fun _ => ⟨length, ?_, fun cell inside => ?_⟩,
      fun _ _ => simple_of_cellCount before.length parts isCount⟩
    · simp [length]
    · have below : cell < ptrs.length := by omega
      refine ⟨ptrs[cell], ?_, ?_⟩
      · simp only [if_neg (Nat.ne_of_lt below), if_pos below, getElem?_eq_getElem below]
      · simp only [← strings, getElem_map]
  · next opened =>
    refine ⟨_, rfl, rfl, fun simple => absurd ?_ opened, fun lists dirty => ?_⟩
    · rw [cellCount_simple before.length parts simple, length, Nat.add_sub_cancel]
    · -- the cell behind the pointers is left as it was
      have isEnd := lists.2.1
      simp only [length, Nat.lt_irrefl, if_false] at isEnd
      exact absurd isEnd (dirty _)

theorem char_eq_slash (text : List UInt8) : char text 0 = slash ↔ text.head? = some slash := by
  cases text with
  | nil => decide
  | cons byte text => simp [char]

/-- What a call does for a path: it ends, says whether the path starts with a slash, and lists the
components of a simple path; of another path it does not, if no cell of the array was `NULL`. -/
theorem getPath_spec (text : List UInt8) (plain : 0 ∉ text) (garbage : Nat → Option Nat) :
    ∃ split, getPath (text.length + 1) text slash garbage = some split ∧
      split.fromRoot = decide (text.head? = some slash) ∧
      (Simple (relative text) → Lists split (runs text)) ∧
      (Lists split (runs text) → (∀ cell, garbage cell ≠ none) → Simple (relative text)) := by
  by_cases fromRoot : text.head? = some slash
  · obtain ⟨more, rfl⟩ := head?_eq_some_iff.mp fromRoot
    obtain ⟨piece, rest, rfl, parts⟩ := exists_joined more fun zero =>
      plain (mem_cons_of_mem _ zero)
    obtain ⟨split, result, root, lists⟩ := getPath_pieces (slash :: joined piece rest) [slash]
      garbage rfl plain (by simp [char]) parts
    have all : ∀ part ∈ [] :: piece :: rest, Piece part := by simpa [Piece] using parts
    have same := runs_joined all
    rw [joined, nil_append] at same
    rw [same, show filled ([] :: piece :: rest) = filled (piece :: rest) by simp [filled]]
    refine ⟨split, result, by rw [root]; simp [char], ?_⟩
    simpa [relative] using lists
  · obtain ⟨piece, rest, rfl, parts⟩ := exists_joined text plain
    obtain ⟨split, result, root, lists⟩ := getPath_pieces (joined piece rest) [] garbage rfl
      plain (by rw [if_neg (mt (char_eq_slash _).mp fromRoot)]; rfl) parts
    rw [runs_joined parts, relative, if_neg fromRoot]
    exact ⟨split, result, by rw [root]; exact decide_eq_decide.mpr (char_eq_slash _), lists⟩

/-- `__ext2_get_path` ends, says whether the path starts with a slash and lists its components,
whatever the array held before, exactly if the path has a component and one slash between them. -/
theorem path_split_iff (text : List UInt8) (plain : 0 ∉ text) :
    (∀ garbage, ∃ split, getPath (text.length + 1) text slash garbage = some split ∧
      split.fromRoot = decide (text.head? = some slash) ∧ Lists split (runs text)) ↔
      Simple (relative text) := by
  constructor
  · intro always
    obtain ⟨split, result, _, lists⟩ := always fun _ => some 0
    obtain ⟨same, isSame, _, _, simple⟩ := getPath_spec text plain fun _ => some 0
    rw [result] at isSame
    cases isSame
    exact simple lists fun _ => Option.some_ne_none 0
  · intro simple garbage
    obtain ⟨split, result, root, lists, _⟩ := getPath_spec text plain garbage
    exact ⟨split, result, root, lists simple⟩

/-- The path `/a/b`. -/
theorem path_split_two : ∃ split, getPath 5 [47, 97, 47, 98] slash (fun _ => some 7) = some split ∧
    split.fromRoot = true ∧ Lists split [[97], [98]] :=
  (path_split_iff [47, 97, 47, 98] (by decide)).mpr ⟨by decide, by decide, by decide⟩ fun _ => some 7

/-- The array of the path `a//b` has no end, and its size is said to be 0. -/
theorem doubled_slash : runs [97, 47, 47, 98] = [[97], [98]] ∧
    ∃ split, getPath 5 [97, 47, 47, 98] slash (fun _ => some 7) = some split ∧
      split.outSize = 0 ∧ ∀ cell, split.ret cell ≠ none := by
  refine ⟨by decide, _, rfl, rfl, fun cell => ?_⟩
  by_cases first : cell < 2
  · have cases : cell = 0 ∨ cell = 1 := by omega
    rcases cases with rfl | rfl <;> decide
  · have outside : ¬ cell < ([0, 3] : List Nat).length := first
    exact (if_neg outside).trans_ne (Option.some_ne_none 7)

end Whole

end Balrog.PathSplit
