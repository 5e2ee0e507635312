import Mathlib.Data.List.TakeWhile
import Mathlib.Tactic.Common

/-!
# Strings in a buffer and `strtok`

A buffer is a list of bytes, behind which is a zero; pointers are offsets. `strtok` takes one
delimiter. It passes over delimiters, ends the token with a zero in place of the next delimiter,
and remembers the place behind it. So an empty field between two delimiters is no token.

The laws describe a buffer as what lies before a place and what begins there. A call turns one
such description into the next, which is how the callers' runs of calls are followed.
-/

namespace Balrog.Strtok

open List

/-- `buffer[ptr]` -/
def char (buffer : List UInt8) (ptr : Nat) : UInt8 := buffer.getD ptr 0

/-- The C string that begins at a place of the buffer. -/
def string (buffer : List UInt8) (ptr : Nat) : List UInt8 := (buffer.drop ptr).takeWhile (· ≠ 0)

/-- `strlen` -/
def strlen (buffer : List UInt8) (ptr : Nat) : Nat := (string buffer ptr).length

/-- `strspn` -/
def strspn (buffer : List UInt8) (ptr : Nat) (delim : UInt8) : Nat :=
  ((buffer.drop ptr).takeWhile fun byte => byte = delim ∧ byte ≠ 0).length

/-- `strcspn` -/
def strcspn (buffer : List UInt8) (ptr : Nat) (delim : UInt8) : Nat :=
  ((buffer.drop ptr).takeWhile fun byte => byte ≠ delim ∧ byte ≠ 0).length

/-- The buffer and `current_ptr` of `strtok`. -/
structure Tokenizer where
  buffer : List UInt8
  currentPtr : Nat

/-- `strtok`; no pointer stands for `NULL`. -/
def strtok (tokens : Tokenizer) (str : Option Nat) (delim : UInt8) : Option Nat × Tokenizer :=
  let str := str.getD tokens.currentPtr
  if char tokens.buffer str = 0 then (none, { tokens with currentPtr := str })
  else
    let str := str + strspn tokens.buffer str delim
    if char tokens.buffer str = 0 then (none, { tokens with currentPtr := str })
    else
      let stop := str + strcspn tokens.buffer str delim
      if char tokens.buffer stop = 0 then (some str, { tokens with currentPtr := stop })
      else (some str, { buffer := tokens.buffer.set stop 0, currentPtr := stop + 1 })

/-- The string ends here: nothing follows, or a zero byte does. -/
def Ends (rest : List UInt8) : Prop := ∀ byte ∈ rest.head?, byte = 0

/-- A token: some bytes other than the delimiter and zero. -/
structure Word (delim : UInt8) (word : List UInt8) : Prop where
  nonempty : word ≠ []
  plain : ∀ byte ∈ word, byte ≠ delim ∧ byte ≠ 0

section Places

variable {before rest word more : List UInt8} {delim : UInt8} {current : Nat}

@[simp] theorem char_at (before rest : List UInt8) (offset : Nat) :
    char (before ++ rest) (before.length + offset) = char rest offset := by
  rw [char, char, getD_eq_getElem?_getD, getD_eq_getElem?_getD,
    getElem?_append_right (Nat.le_add_right _ _), Nat.add_sub_cancel_left]

@[simp] theorem char_here (before rest : List UInt8) :
    char (before ++ rest) before.length = char rest 0 := char_at before rest 0

theorem char_ends (ends : Ends rest) : char rest 0 = 0 := by
  cases rest with
  | nil => rfl
  | cons byte rest => exact ends byte rfl

/-- The bytes up to the end of a string or a delimiter. -/
theorem takeWhile_word {accepts : UInt8 → Bool} {word rest : List UInt8}
    (all : ∀ byte ∈ word, accepts byte = true) (stop : ∀ byte ∈ rest.head?, accepts byte = false) :
    (word ++ rest).takeWhile accepts = word := by
  rw [takeWhile_append_of_pos all]
  cases rest with
  | nil => simp
  | cons byte rest => rw [takeWhile_cons_of_neg (by simp [stop byte rfl]), append_nil]

theorem string_at (before word : List UInt8) (plain : 0 ∉ word) (ends : Ends rest) :
    string (before ++ (word ++ rest)) before.length = word := by
  rw [string, drop_left]
  refine takeWhile_word (fun byte inside => ?_) fun byte first => ?_
  · exact decide_eq_true fun zero => plain (zero ▸ inside)
  · simp [ends byte first]

theorem strcspn_at (before : List UInt8) (plain : ∀ byte ∈ word, byte ≠ delim ∧ byte ≠ 0)
    (stop : ∀ byte ∈ rest.head?, byte = delim ∨ byte = 0) :
    strcspn (before ++ (word ++ rest)) before.length delim = word.length := by
  rw [strcspn, drop_left, takeWhile_word]
  · exact fun byte inside => decide_eq_true (plain byte inside)
  · intro byte first
    rcases stop byte first with same | zero
    · simp [same]
    · simp [zero]

/-- There is nothing to pass over before a word. -/
theorem strspn_word (before : List UInt8) (isWord : Word delim word) (rest : List UInt8) :
    strspn (before ++ (word ++ rest)) before.length delim = 0 := by
  obtain ⟨byte, others, rfl⟩ := exists_cons_of_ne_nil isWord.nonempty
  have different := (isWord.plain byte mem_cons_self).1
  rw [strspn, drop_left, cons_append,
    takeWhile_cons_of_neg (by simp [different]), length_nil]

theorem char_word (isWord : Word delim word) (rest : List UInt8) : char (word ++ rest) 0 ≠ 0 := by
  obtain ⟨byte, others, rfl⟩ := exists_cons_of_ne_nil isWord.nonempty
  exact (isWord.plain byte mem_cons_self).2

theorem strtok_none (before rest : List UInt8) (ends : Ends rest) :
    strtok ⟨before ++ rest, current⟩ (some before.length) delim =
      (none, ⟨before ++ rest, before.length⟩) := by
  simp [strtok, char_ends ends]

theorem strtok_word (before : List UInt8) (isWord : Word delim word) (some' : delim ≠ 0)
    (more : List UInt8) :
    strtok ⟨before ++ (word ++ delim :: more), current⟩ (some before.length) delim =
      (some before.length,
        ⟨(before ++ word ++ [0]) ++ more, (before ++ word ++ [0]).length⟩) := by
  have stops : strcspn (before ++ (word ++ delim :: more)) before.length delim = word.length :=
    strcspn_at before isWord.plain fun byte first => .inl (Option.some.inj first).symm
  have atEnd : char (before ++ (word ++ delim :: more)) (before.length + word.length) = delim := by
    rw [char_at, char_here]
    rfl
  simp only [strtok, Option.getD_some, char_here, if_neg (char_word isWord _),
    strspn_word before isWord, Nat.add_zero, stops, atEnd, if_neg some']
  rw [← append_assoc, ← length_append, set_append_right _ _ (Nat.le_refl _)]
  simp [Nat.add_assoc]

theorem strtok_last (before : List UInt8) (isWord : Word delim word) (ends : Ends rest) :
    strtok ⟨before ++ (word ++ rest), current⟩ (some before.length) delim =
      (some before.length, ⟨before ++ (word ++ rest), before.length + word.length⟩) := by
  have stops : strcspn (before ++ (word ++ rest)) before.length delim = word.length :=
    strcspn_at before isWord.plain fun byte first => .inr (ends byte first)
  have atEnd : char (before ++ (word ++ rest)) (before.length + word.length) = 0 := by
    rw [char_at, char_here, char_ends ends]
  simp only [strtok, Option.getD_some, char_here, if_neg (char_word isWord _),
    strspn_word before isWord, Nat.add_zero, stops, atEnd, if_true]

theorem strtok_skip (before rest : List UInt8) (some' : delim ≠ 0) :
    strtok ⟨before ++ delim :: rest, current⟩ (some before.length) delim =
      strtok ⟨(before ++ [delim]) ++ rest, current⟩ (some (before ++ [delim]).length) delim := by
  have passes : strspn (before ++ delim :: rest) before.length delim =
      1 + strspn ((before ++ [delim]) ++ rest) (before ++ [delim]).length delim := by
    rw [strspn, strspn, drop_left, drop_left,
      takeWhile_cons_of_pos (by simp [some']), length_cons, Nat.add_comm]
  have same : before ++ delim :: rest = (before ++ [delim]) ++ rest := by simp
  have next : before.length + (1 + strspn ((before ++ [delim]) ++ rest) (before ++ [delim]).length
      delim) = (before ++ [delim]).length +
        strspn ((before ++ [delim]) ++ rest) (before ++ [delim]).length delim := by
    rw [length_append, length_singleton, Nat.add_assoc]
  have here : char (before ++ delim :: rest) before.length ≠ 0 := by
    rw [char_here]
    exact some'
  rw [strtok, strtok]
  simp only [Option.getD_some, if_neg here, passes, next]
  rw [same]
  by_cases zero : char ((before ++ [delim]) ++ rest) (before ++ [delim]).length = 0
  · -- there is nothing more to pass over at the end of the string
    have nothing : strspn ((before ++ [delim]) ++ rest) (before ++ [delim]).length delim = 0 := by
      rw [char_here] at zero
      rw [strspn, drop_left]
      cases rest with
      | nil => rfl
      | cons byte rest =>
        have isZero : byte = 0 := zero
        rw [takeWhile_cons_of_neg (by simp [isZero]), length_nil]
    simp only [nothing, Nat.add_zero, zero, if_true]
  · simp only [if_neg zero]

end Places

/-- What `strtok` returns when it is called with a string and then with `NULL`, and the buffer after
the calls. -/
def calls (delim : UInt8) : Nat → Option Nat → Tokenizer → List (Option Nat) × List UInt8
  | 0, _, tokens => ([], tokens.buffer)
  | count + 1, str, tokens =>
    let call := strtok tokens str delim
    let later := calls delim count none call.2
    (call.1 :: later.1, later.2)

/-- The maximal runs of characters other than the delimiter. -/
def fields (delim : UInt8) (text : List UInt8) : List (List UInt8) :=
  (text.splitOn delim).filter (· ≠ [])

/-- Pointers into a buffer to the runs of a text, which begins behind some bytes that are kept. -/
structure Tokens (delim : UInt8) (before text buffer : List UInt8) (ptrs : List Nat) : Prop where
  kept : before <+: buffer
  ordered : ptrs.Pairwise (· < ·)
  inside : ∀ ptr ∈ ptrs, before.length ≤ ptr ∧
    ptr + strlen buffer ptr ≤ before.length + text.length
  strings : ptrs.map (string buffer) = fields delim text

section Runs

variable {before text rest buffer word : List UInt8} {delim : UInt8} {current : Nat}
  {ptrs : List Nat}

theorem calls_null (count ptr current : Nat) (buffer : List UInt8) :
    calls delim count none ⟨buffer, ptr⟩ = calls delim count (some ptr) ⟨buffer, current⟩ := by
  cases count <;> rfl

theorem calls_end (ends : Ends rest) (count : Nat) :
    calls delim count (some before.length) ⟨before ++ rest, current⟩ =
      (replicate count none, before ++ rest) := by
  induction count generalizing current with
  | zero => rfl
  | succ count ih =>
    rw [calls, strtok_none before rest ends, calls_null count _ 0, ih, replicate_succ]

theorem calls_skip (isDelim : delim ≠ 0) (count : Nat) :
    calls delim count (some before.length) ⟨before ++ delim :: rest, current⟩ =
      calls delim count (some (before ++ [delim]).length)
        ⟨(before ++ [delim]) ++ rest, current⟩ := by
  cases count with
  | zero => simp [calls]
  | succ count => rw [calls, calls, strtok_skip before rest isDelim]

theorem dropWhile_head (accepts : UInt8 → Bool) {byte : UInt8}
    (first : byte ∈ (text.dropWhile accepts).head?) : accepts byte = false := by
  have stop := head?_dropWhile_not accepts text
  rwa [Option.mem_def.mp first] at stop

theorem fields_piece (apart : delim ∉ word) : fields delim word = [word].filter (· ≠ []) := by
  rw [fields, splitOn, splitOnP_eq_singleton]
  exact fun byte inside => beq_eq_false_iff_ne.mpr fun same => apart (same ▸ inside)

/-- The text up to a delimiter, which is a run if it is not empty, and the runs behind it. -/
theorem fields_append (apart : delim ∉ word) (more : List UInt8) :
    fields delim (word ++ delim :: more) = [word].filter (· ≠ []) ++ fields delim more := by
  rw [fields, splitOn, splitOnP_append_cons_of_forall_mem, ← singleton_append, filter_append]
  · rfl
  · exact fun byte inside => beq_eq_false_iff_ne.mpr fun same => apart (same ▸ inside)
  · exact beq_self_eq_true delim

theorem Tokens.skip {more : List UInt8} (tokens : Tokens delim (before ++ [delim]) more buffer ptrs) :
    Tokens delim before ([] ++ delim :: more) buffer ptrs := by
  refine ⟨(prefix_append _ _).trans tokens.kept, tokens.ordered, fun ptr listed => ?_, ?_⟩
  · have inside := tokens.inside ptr listed
    simp only [length_append, length_nil, length_cons] at inside ⊢
    omega
  · rw [tokens.strings, fields_append not_mem_nil]
    rfl

/-- A token before the others. -/
theorem Tokens.cons {more : List UInt8} (isWord : Word delim word)
    (tokens : Tokens delim (before ++ word ++ [0]) more buffer ptrs) :
    Tokens delim before (word ++ delim :: more) buffer (before.length :: ptrs) := by
  obtain ⟨after, rfl⟩ := tokens.kept
  have here : string (before ++ word ++ [0] ++ after) before.length = word := by
    have plain : 0 ∉ word := fun zero => (isWord.plain 0 zero).2 rfl
    have ends : Ends (0 :: after) := fun byte first => (Option.some.inj first).symm
    simpa using string_at before word plain ends
  have behind : (before ++ word ++ [0]).length = before.length + word.length + 1 := by
    simp [Nat.add_assoc]
  refine ⟨⟨word ++ [0] ++ after, by simp⟩, ?_, ?_, ?_⟩
  · refine pairwise_cons.mpr ⟨fun ptr listed => ?_, tokens.ordered⟩
    have := (tokens.inside ptr listed).1
    omega
  · rw [length_append, length_cons]
    refine forall_mem_cons.mpr ⟨⟨Nat.le_refl _, ?_⟩, fun ptr listed => ?_⟩
    · rw [strlen, here]
      omega
    · have := tokens.inside ptr listed
      omega
  · rw [map_cons, here, tokens.strings,
      fields_append fun inside => (isWord.plain delim inside).1 rfl]
    simp [isWord.nonempty]

/-- The calls return pointers to the runs of a text, and then only `NULL`. -/
theorem calls_tokens (before : List UInt8) (current : Nat) (plain : 0 ∉ text) (ends : Ends rest) :
    ∃ ptrs buffer, Tokens delim before text buffer ptrs ∧ ∀ further,
      calls delim (ptrs.length + further) (some before.length) ⟨before ++ (text ++ rest), current⟩ =
        (ptrs.map some ++ replicate further none, buffer) := by
  -- the part of the text up to the next delimiter is handled at once
  induction size : text.length using Nat.strong_induction_on generalizing before text current with
  | _ size ih =>
  subst size
  obtain ⟨word, tail, rfl, apart, stop⟩ : ∃ word tail, text = word ++ tail ∧ delim ∉ word ∧
      ∀ byte ∈ tail.head?, byte = delim := by
    refine ⟨text.takeWhile (· ≠ delim), text.dropWhile (· ≠ delim), takeWhile_append_dropWhile.symm,
      fun inside => by simpa using mem_takeWhile_imp inside, fun byte first => ?_⟩
    simpa using dropWhile_head _ first
  have isWord (some' : word ≠ []) : Word delim word :=
    ⟨some', fun byte inside => ⟨fun same => apart (same ▸ inside),
      fun zero => plain (mem_append_left _ (zero ▸ inside))⟩⟩
  cases tail with
  | nil =>
    rw [append_nil] at plain ⊢
    by_cases empty : word = []
    · subst empty
      refine ⟨[], before ++ rest, ⟨prefix_append _ _, .nil, by simp, by simp [fields]⟩,
        fun further => ?_⟩
      rw [nil_append, length_nil, Nat.zero_add, calls_end ends, map_nil, nil_append]
    · have here := string_at before word plain ends
      refine ⟨[before.length], before ++ (word ++ rest),
        ⟨prefix_append _ _, pairwise_singleton _ _, ?_, ?_⟩, fun further => ?_⟩
      · simp [strlen, here]
      · simp [here, fields_piece apart, empty]
      · rw [length_singleton, Nat.add_comm, calls, strtok_last before (isWord empty) ends,
          ← length_append, calls_null further _ 0, ← append_assoc, calls_end ends]
        rfl
  | cons byte more =>
    obtain rfl := stop byte rfl
    have isDelim : byte ≠ 0 := fun zero => plain (by simp [zero])
    have moreText : 0 ∉ more := fun zero => plain (by simp [zero])
    have fewer : more.length < (word ++ byte :: more).length := by simp; omega
    by_cases empty : word = []
    · subst empty
      obtain ⟨ptrs, buffer, tokens, run⟩ := ih _ fewer (before ++ [byte]) current moreText rfl
      refine ⟨ptrs, buffer, tokens.skip, fun further => ?_⟩
      rw [nil_append, cons_append, calls_skip isDelim, run]
    · obtain ⟨ptrs, buffer, tokens, run⟩ := ih _ fewer (before ++ word ++ [0]) 0 moreText rfl
      refine ⟨before.length :: ptrs, buffer, tokens.cons (isWord empty), fun further => ?_⟩
      rw [length_cons, Nat.add_right_comm, calls, append_assoc word, cons_append,
        strtok_word before (isWord empty) isDelim, calls_null _ _ 0, run]
      rfl

end Runs

/-- `strtok`, called with a string and then with `NULL`, returns the maximal runs of characters other
than the delimiter, in order and as strings inside the buffer, and then only `NULL`. -/
theorem strtok_returns_runs (buffer : List UInt8) (ptr current : Nat) (inside : ptr ≤ buffer.length)
    (delim : UInt8) :
    ∃ ptrs after, Tokens delim (buffer.take ptr) (string buffer ptr) after ptrs ∧ ∀ further,
      calls delim (ptrs.length + further) (some ptr) ⟨buffer, current⟩ =
        (ptrs.map some ++ replicate further none, after) := by
  have parts : buffer = buffer.take ptr ++ (string buffer ptr ++
      (buffer.drop ptr).dropWhile (· ≠ 0)) := by
    rw [string, takeWhile_append_dropWhile, take_append_drop]
  have place : (buffer.take ptr).length = ptr := by rw [length_take, Nat.min_eq_left inside]
  have plain : 0 ∉ string buffer ptr := fun zero => by simpa using mem_takeWhile_imp zero
  have ends : Ends ((buffer.drop ptr).dropWhile (· ≠ 0)) := fun byte first => by
    simpa using dropWhile_head _ first
  have run := @calls_tokens _ _ delim (buffer.take ptr) current plain ends
  rw [← parts, place] at run
  exact run

/-- The string `;a;;bc` -/
theorem strtok_returns_runs_two : ∃ ptrs after,
    Tokens 59 [] [59, 97, 59, 59, 98, 99] after ptrs ∧
      calls 59 (ptrs.length + 5) (some 0) ⟨[59, 97, 59, 59, 98, 99], 0⟩ =
        (ptrs.map some ++ replicate 5 none, after) := by
  obtain ⟨ptrs, after, tokens, run⟩ := strtok_returns_runs [59, 97, 59, 59, 98, 99] 0 0 (by decide) 59
  exact ⟨ptrs, after, tokens, run 5⟩

end Balrog.Strtok
