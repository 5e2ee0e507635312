import Balrog.ByteMemory
import Mathlib.Data.List.Basic

/-!
# The argument page of a new process

`__copy_add_args_to_stack` gives a new process one page that holds the array of argument
pointers at its start and the strings from byte 256 on. Neither part is bounded: the array
grows into the strings after 32 arguments, and the strings grow out of the page after 3840
bytes.

The vector is the list of its strings, `none` for a null pointer. `page` is the answer of
`pmm_calloc` as an address of the linear window; whether `vmm_set_page` finds its tables is
part of the call, because its answer is not looked at.
-/

namespace Balrog.ExecArguments

open ByteMemory List

/-- `PROCESS_START_DATA` -/
def processStartData : Nat := 0x00007ffd0e212000

/-- The memory that the arguments are packed into, with the places the loop has reached. -/
structure Args where
  memory : Bytes
  data : Nat
  argc : Nat

/-- One round: the string is copied, then terminated, and its user address stored. -/
def pushArg (array : Nat) (args : Args) (text : List UInt8) : Args :=
  let memory := copy args.memory args.data (text ++ [0])
  let memory := put memory (args.data + text.length) 0
  { memory := store 8 memory (array + 8 * args.argc) (processStartData ||| args.data % 0x1000)
    data := args.data + (text.length + 1)
    argc := args.argc + 1 }

/-- The variables before the loop: `pmm_calloc` has cleared the page. -/
def emptyArgs (memory : Bytes) (array : Nat) : Args :=
  { memory := fill memory array 4096 0, data := array + 0x100, argc := 0 }

/-- What the new process starts with: the memory, the page behind `PROCESS_START_DATA` and
the two argument registers. -/
structure Started where
  memory : Bytes
  mapped : Option Nat
  rdi : Nat
  rsi : Nat

/-- `__copy_add_args_to_stack` -/
def copyAddArgsToStack (memory : Bytes) (page : Option Nat) (tables : Bool)
    (argv : Option (List (List UInt8))) : Option Started :=
  match page with
  | none => none
  | some array =>
    let args := (argv.getD []).foldl (pushArg array) (emptyArgs memory array)
    some { memory := args.memory
           mapped := if tables then some array else none
           rdi := args.argc
           rsi := processStartData }

/-- What the new process reads at an address of its argument page. -/
def Started.user (started : Started) (virt : Nat) : Option UInt8 :=
  match started.mapped with
  | none => none
  | some array =>
    if processStartData ≤ virt ∧ virt < processStartData + 4096 then
      some (started.memory (array + (virt - processStartData)))
    else none

/-- The process can read this text, with a zero behind it, at an address. -/
def Started.HasText (started : Started) (virt : Nat) (text : List UInt8) : Prop :=
  (∀ offset < text.length, started.user (virt + offset) = some (text.getD offset 0)) ∧
    started.user (virt + text.length) = some 0

/-- The process can read this word at an address. -/
def Started.HasWord (started : Started) (virt word : Nat) : Prop :=
  ∃ bytes : Bytes, (∀ offset < 8, started.user (virt + offset) = some (bytes offset)) ∧
    load 8 bytes 0 = word

/-- The arguments arrive, and only the argument page has been written. -/
def Passed (memory : Bytes) (array : Nat) (arguments : List (List UInt8)) (started : Started) :
    Prop :=
  started.rdi = arguments.length ∧
    (∀ index (inside : index < arguments.length), ∃ pointer,
      started.HasWord (started.rsi + 8 * index) pointer ∧
      started.HasText pointer arguments[index]) ∧
    ∀ probe, probe < array ∨ array + 4096 ≤ probe → started.memory probe = memory probe

/-- The bytes that the strings take with their terminators. -/
def textBytes : List (List UInt8) → Nat
  | [] => 0
  | text :: rest => text.length + 1 + textBytes rest

variable {text : List UInt8}

theorem pushArg_outside {array : Nat} {args : Args} {probe : Nat}
    (word : probe < array + 8 * args.argc ∨ array + 8 * args.argc + 8 ≤ probe)
    (string : probe < args.data ∨ args.data + (text.length + 1) ≤ probe) :
    (pushArg array args text).memory probe = args.memory probe := by
  have notLast : probe ≠ args.data + text.length := by omega
  simp only [pushArg]
  rw [store_outside word, put, if_neg notLast, copy_outside]
  simpa using string

theorem pushArg_text {array : Nat} {args : Args} (apart : array + 8 * args.argc + 8 ≤ args.data)
    {offset : Nat} (inside : offset ≤ text.length) :
    (pushArg array args text).memory (args.data + offset) = (text ++ [0]).getD offset 0 := by
  simp only [pushArg]
  rw [store_outside (by omega), put]
  split
  · next last =>
    obtain rfl : offset = text.length := by omega
    simp
  · exact copy_inside (by simp; omega)

/-- Where the pointer leads in the user's page. -/
theorem pointer_eq {array data : Nat} (aligned : array % 4096 = 0) (low : array ≤ data)
    (high : data < array + 4096) :
    (processStartData ||| data % 0x1000) % 256 ^ 8 = processStartData + (data - array) := by
  have offset : data % 0x1000 = data - array := by omega
  have small : data - array < 2 ^ 12 := by omega
  have parts : processStartData = 2 ^ 12 * 34356650514 := by decide
  rw [offset]
  conv_lhs => rw [parts, ← Nat.two_pow_add_eq_or_of_lt small, ← parts]
  refine Nat.mod_eq_of_lt ?_
  unfold processStartData
  omega

/-- There is room for the pointers below the strings and for the strings in the page. -/
structure Room (array : Nat) (args : Args) (texts : List (List UInt8)) : Prop where
  pointers : args.argc + texts.length ≤ 32
  above : array + 0x100 ≤ args.data
  strings : args.data + textBytes texts ≤ array + 4096

/-- What the loop leaves: the pointers and the strings of its arguments, and nothing else. -/
structure Pushed (array : Nat) (args : Args) (texts : List (List UInt8)) (after : Args) : Prop where
  argc : after.argc = args.argc + texts.length
  outside : ∀ probe,
    probe < array + 8 * args.argc ∨ array + 8 * (args.argc + texts.length) ≤ probe →
    probe < args.data ∨ args.data + textBytes texts ≤ probe →
    after.memory probe = args.memory probe
  placed : ∀ index (inside : index < texts.length), ∃ data, array + 0x100 ≤ data ∧
    data + (texts[index].length + 1) ≤ array + 4096 ∧
    load 8 after.memory (array + 8 * (args.argc + index)) =
      (processStartData ||| data % 0x1000) % 256 ^ 8 ∧
    ∀ offset ≤ texts[index].length,
      after.memory (data + offset) = (texts[index] ++ [0]).getD offset 0

/-- The loop with room for all its arguments, by induction over them: what a later round
writes lies apart from the pointer and the string of an earlier one. -/
theorem pushed {array : Nat} (texts : List (List UInt8)) (args : Args)
    (room : Room array args texts) :
    Pushed array args texts (texts.foldl (pushArg array) args) := by
  induction texts generalizing args with
  | nil =>
    exact ⟨rfl, fun _ _ _ => rfl, fun index inside => absurd inside (Nat.not_lt_zero index)⟩
  | cons text texts ih =>
    obtain ⟨pointers, above, strings⟩ := room
    rw [length_cons] at pointers
    rw [textBytes] at strings
    have after : (pushArg array args text).argc = args.argc + 1 ∧
        (pushArg array args text).data = args.data + (text.length + 1) := ⟨rfl, rfl⟩
    have rest := ih (pushArg array args text)
      ⟨by omega, by omega, by omega⟩
    rw [foldl_cons]
    refine ⟨?_, fun probe word string => ?_, fun index inside => ?_⟩
    · rw [rest.argc, length_cons]
      omega
    · rw [length_cons] at word
      rw [textBytes] at string
      rw [rest.outside probe (by omega) (by omega)]
      exact pushArg_outside (by omega) (by omega)
    · cases index with
      | zero =>
        refine ⟨args.data, above, by simp only [getElem_cons_zero]; omega, ?_, ?_⟩
        · rw [Nat.add_zero]
          refine (load_congr 8 _ _ _ fun probe low high => rest.outside probe ?_ ?_).trans
            (load_store_same 8 _ _ _)
          · omega
          · omega
        · intro offset below
          rw [getElem_cons_zero] at below ⊢
          rw [rest.outside _ (by omega) (by omega)]
          exact pushArg_text (by omega) below
      | succ index =>
        obtain ⟨data, low, high, word, string⟩ :=
          rest.placed index (by simpa using inside)
        have place : array + 8 * (args.argc + (index + 1)) =
            array + 8 * ((pushArg array args text).argc + index) := by
          rw [after.1]
          omega
        exact ⟨data, low, high, place ▸ word, string⟩

/-- The number of arguments and the length of their strings leave the two parts of the page
apart. -/
def Bounded (arguments : List (List UInt8)) : Prop :=
  arguments.length ≤ 32 ∧ textBytes arguments ≤ 4096 - 0x100

instance (arguments : List (List UInt8)) : Decidable (Bounded arguments) :=
  inferInstanceAs (Decidable (_ ∧ _))

variable {started : Started} {array offset : Nat}

/-- What the process reads in its argument page. -/
theorem user_inside (mapped : started.mapped = some array) (inside : offset < 4096) :
    started.user (processStartData + offset) = some (started.memory (array + offset)) := by
  simp only [Started.user, mapped]
  rw [if_pos (by omega), Nat.add_sub_cancel_left]

theorem hasWord_inside (mapped : started.mapped = some array) (inside : offset + 8 ≤ 4096) :
    started.HasWord (processStartData + offset) (load 8 started.memory (array + offset)) := by
  refine ⟨fun probe => started.memory (array + offset + probe), fun probe below => ?_,
    load_window 8 _ _ _⟩
  rw [Nat.add_assoc, user_inside mapped (by omega), ← Nat.add_assoc]

theorem Started.HasWord.unique {virt word other : Nat} (hasWord : started.HasWord virt word)
    (hasOther : started.HasWord virt other) :
    word = other := by
  obtain ⟨bytes, read, rfl⟩ := hasWord
  obtain ⟨others, otherRead, rfl⟩ := hasOther
  refine load_congr 8 _ _ _ fun probe _ below => ?_
  rw [Nat.zero_add] at below
  exact Option.some.inj ((read probe below).symm.trans (otherRead probe below))

theorem hasText_inside (mapped : started.mapped = some array)
    (inside : offset + text.length < 4096) (string : ∀ probe ≤ text.length,
      started.memory (array + offset + probe) = (text ++ [0]).getD probe 0) :
    started.HasText (processStartData + offset) text := by
  refine ⟨fun probe below => ?_, ?_⟩
  · rw [Nat.add_assoc, user_inside mapped (by omega), ← Nat.add_assoc, string probe (by omega)]
    simp [getElem?_append_left below]
  · rw [Nat.add_assoc, user_inside mapped inside, ← Nat.add_assoc, string _ (Nat.le_refl _)]
    simp

/-- Either the call fails, for want of a page, or the arguments arrive in the page. -/
def FailsOrPasses (memory : Bytes) (page : Option Nat) (argv : Option (List (List UInt8))) : Prop :=
  match copyAddArgsToStack memory page true argv with
  | none => page = none
  | some started => ∃ array, page = some array ∧ Passed memory array (argv.getD []) started

/-- Bounded arguments arrive in the page, and nothing else is written. -/
theorem bounded_passed (memory : Bytes) {array : Nat} (aligned : array % 4096 = 0)
    {argv : Option (List (List UInt8))} (bounded : Bounded (argv.getD [])) :
    FailsOrPasses memory (some array) argv := by
  obtain ⟨few, short⟩ := bounded
  have start : (emptyArgs memory array).argc = 0 ∧
      (emptyArgs memory array).data = array + 0x100 := ⟨rfl, rfl⟩
  have result := pushed (argv.getD []) (emptyArgs memory array) (⟨by omega, by omega, by omega⟩ :
    Room array (emptyArgs memory array) (argv.getD []))
  refine ⟨array, rfl, ?_, fun index inside => ?_, fun probe outside => ?_⟩
  · exact result.argc.trans (Nat.zero_add _)
  · obtain ⟨data, low, high, word, string⟩ := result.placed index inside
    rw [pointer_eq aligned (by omega) (by omega), start.1, Nat.zero_add] at word
    refine ⟨processStartData + (data - array), ?_, hasText_inside rfl (by omega) ?_⟩
    · rw [← word]
      exact hasWord_inside rfl (by omega)
    · intro offset below
      have same : array + (data - array) + offset = data + offset := by omega
      rw [same]
      exact string offset below
  · have kept := result.outside probe (by omega) (by omega)
    exact kept.trans (if_neg (by omega))

/-- Where the next string goes and how many there are does not depend on the memory. -/
theorem foldl_data (array : Nat) (texts : List (List UInt8)) (args : Args) :
    (texts.foldl (pushArg array) args).data = args.data + textBytes texts ∧
      (texts.foldl (pushArg array) args).argc = args.argc + texts.length := by
  induction texts generalizing args with
  | nil => exact ⟨rfl, rfl⟩
  | cons text texts ih =>
    have after := ih (pushArg array args text)
    rw [foldl_cons, after.1, after.2, textBytes, length_cons]
    simp only [pushArg]
    omega

theorem textBytes_append (texts : List (List UInt8)) (last : List UInt8) :
    textBytes (texts ++ [last]) = textBytes texts + (last.length + 1) := by
  induction texts with
  | nil => simp [textBytes]
  | cons text texts ih =>
    rw [cons_append, textBytes, textBytes, ih]
    omega

/-- A byte that is stored does not depend on what was there. -/
theorem store_inside {memory other : Bytes} {address value probe : Nat} (width : Nat)
    (inside : address ≤ probe ∧ probe < address + width) :
    store width memory address value probe = store width other address value probe := by
  induction width generalizing address value with
  | zero => omega
  | succ width ih =>
    simp only [store, put]
    split
    · rfl
    · exact ih (by omega)

/-- The last terminator goes behind all strings, whatever the memory holds. -/
theorem last_written {array : Nat} {texts : List (List UInt8)} (some' : texts ≠ []) :
    ∃ value : UInt8, ∀ memory, (texts.foldl (pushArg array) (emptyArgs memory array)).memory
      (array + 0x100 + textBytes texts - 1) = value := by
  obtain ⟨before, last, rfl⟩ := (eq_nil_or_concat' texts).resolve_left some'
  refine ⟨((before ++ [last]).foldl (pushArg array) (emptyArgs (fun _ => 0) array)).memory
    (array + 0x100 + textBytes (before ++ [last]) - 1), fun memory => ?_⟩
  obtain ⟨isData, isArgc⟩ := foldl_data array before (emptyArgs memory array)
  obtain ⟨otherData, otherArgc⟩ := foldl_data array before (emptyArgs (fun _ => 0) array)
  have place : array + 0x100 + textBytes (before ++ [last]) - 1 =
      array + 0x100 + textBytes before + last.length := by
    rw [textBytes_append]
    omega
  rw [place, foldl_append, foldl_append]
  simp only [foldl_cons, foldl_nil, pushArg, isData, isArgc, otherData, otherArgc]
  simp only [emptyArgs]
  generalize array + 8 * (0 + before.length) = word
  by_cases inside : word ≤ array + 0x100 + textBytes before + last.length ∧
      array + 0x100 + textBytes before + last.length < word + 8
  · exact store_inside 8 inside
  · rw [store_outside (by omega), store_outside (by omega), put, put, if_pos rfl, if_pos rfl]

/-- Arguments that need more than the page are written behind it. -/
theorem long_written {array : Nat} {argv : Option (List (List UInt8))}
    (long : 4096 - 0x100 < textBytes (argv.getD [])) :
    ∃ memory, ¬ FailsOrPasses memory (some array) argv := by
  have some' : argv.getD [] ≠ [] := by
    intro none'
    rw [none'] at long
    exact absurd long (by decide)
  obtain ⟨value, written⟩ := @last_written array _ some'
  refine ⟨fun _ => value + 1, ?_⟩
  rintro ⟨_, ⟨⟩, _, _, kept⟩
  have changed := kept (array + 0x100 + textBytes (argv.getD []) - 1) (.inr (by omega))
  exact absurd ((written _).symm.trans changed) (by simp)

/-- The call fails for want of a page, or at most 32 arguments of at most 3840 bytes arrive and
nothing but their page is written. With more than 3840 bytes it is not so for every content of
the memory: for up to 32 arguments the bound on the bytes is exact. -/
theorem arguments_passed (argv : Option (List (List UInt8))) :
    (∀ memory page, (∀ array ∈ page, array % 4096 = 0) → page = none ∨ Bounded (argv.getD []) →
      FailsOrPasses memory page argv) ∧
    ((argv.getD []).length ≤ 32 → ∀ array, array % 4096 = 0 →
      ((∀ memory, FailsOrPasses memory (some array) argv) ↔
        textBytes (argv.getD []) ≤ 4096 - 0x100)) := by
  refine ⟨fun memory page aligned bounded => ?_, fun few array aligned => ⟨fun passes => ?_,
    fun short memory => bounded_passed memory aligned ⟨few, short⟩⟩⟩
  · cases page with
    | none => exact rfl
    | some array =>
      exact bounded_passed memory (aligned array rfl) (bounded.resolve_left (Option.some_ne_none _))
  · by_contra long
    obtain ⟨memory, fails⟩ := @long_written array argv (Nat.lt_of_not_le long)
    exact fails (passes memory)

/-- Two arguments arrive. -/
theorem arguments_passed_two :
    FailsOrPasses (fun _ => 1) (some 4096) (some [[0x6c, 0x73], [0x2d, 0x6c]]) := by
  refine (arguments_passed (some [[0x6c, 0x73], [0x2d, 0x6c]])).1 (fun _ => 1) (some 4096)
    (fun array page => ?_) (.inr (by decide))
  obtain rfl := Option.some.inj page
  rfl

/-- With 33 arguments the last pointer overwrites the first string; with an argument of 3840
bytes the terminator is written behind the page. -/
theorem arguments_lost :
    (∀ started, copyAddArgsToStack (fun _ => 1) (some 4096) true (some (List.replicate 33 [])) =
        some started → ¬ Passed (fun _ => 1) 4096 (List.replicate 33 []) started) ∧
      ∀ started, copyAddArgsToStack (fun _ => 1) (some 4096) true
        (some [List.replicate 3840 0x61]) = some started →
        ¬ Passed (fun _ => 1) 4096 [List.replicate 3840 0x61] started := by
  refine ⟨?_, ?_⟩
  · rintro _ ⟨⟩ ⟨_, placed, _⟩
    obtain ⟨pointer, word, _, terminated⟩ := placed 0 (by decide)
    have stored := word.unique (@hasWord_inside _ _ 0 rfl (by decide))
    rw [stored] at terminated
    revert terminated
    decide +kernel
  · rintro _ ⟨⟩ ⟨_, _, kept⟩
    have overwritten := kept 8192 (by decide)
    revert overwritten
    decide +kernel

end Balrog.ExecArguments
