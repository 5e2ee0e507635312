import Balrog.ByteMemory

/-!
# Log texts

Before a message is written, `__klog_sanitize` removes the escape sequences of terminals and turns
carriage returns into newlines. `klog_write` lets it write over the text that it reads. The write
position never passes the read position, so the output may lie anywhere up to the start of the
input or behind its end. Addresses do not wrap.
-/

namespace Balrog.LogText

open ByteMemory List

/-- `enum klog_ansi_state` -/
inductive AnsiState where
  | text
  | esc
  | csi

/-- `c == '\r' ? '\n' : c` -/
def newline (c : UInt8) : UInt8 := if c = '\r'.toUInt8 then '\n'.toUInt8 else c

/-- The loop of `__klog_sanitize` from `i` on, with `left` characters to go. -/
def sanitizeFrom (str out maxsize : Nat) : Nat → Nat → Nat → AnsiState → Bytes → Nat × Bytes
  | 0, _, pos, _, memory => (pos, memory)
  | left + 1, i, pos, state, memory =>
    let c := memory (str + i)
    match state with
    | .esc =>
      sanitizeFrom str out maxsize left (i + 1) pos (if c = '['.toUInt8 then .csi else .text) memory
    | .csi =>
      sanitizeFrom str out maxsize left (i + 1) pos (if c = 'm'.toUInt8 then .text else .csi) memory
    | .text =>
      if c = 0x1b then sanitizeFrom str out maxsize left (i + 1) pos .esc memory
      else
        let memory := put memory (out + pos) (newline c)
        if maxsize ≤ pos + 1 then (pos + 1, memory)
        else sanitizeFrom str out maxsize left (i + 1) (pos + 1) .text memory

/-- `__klog_sanitize`: the length, and the memory. -/
def klogSanitize (memory : Bytes) (str out size maxsize : Nat) : Nat × Bytes :=
  let (pos, memory) := sanitizeFrom str out maxsize size 0 0 .text memory
  (pos, put memory (out + pos) 0)

/-- What follows the next `m`. -/
def afterControl (text : List UInt8) : List UInt8 := (text.dropWhile (· ≠ 'm'.toUInt8)).drop 1

/-- What follows an escape sequence of which the escape character has been read. -/
def afterEscape : List UInt8 → List UInt8
  | [] => []
  | c :: rest => if c = '['.toUInt8 then afterControl rest else rest

theorem afterControl_cons (c : UInt8) (rest : List UInt8) :
    afterControl (c :: rest) = if c = 'm'.toUInt8 then rest else afterControl rest := by
  simp only [afterControl, dropWhile_cons]
  split <;> simp_all

theorem afterEscape_length (text : List UInt8) : (afterEscape text).length ≤ text.length := by
  cases text with
  | nil => exact Nat.le_refl 0
  | cons c rest =>
    have control : (afterControl rest).length ≤ rest.length :=
      ((drop_sublist 1 _).trans (dropWhile_sublist _)).length_le
    simp only [afterEscape, length_cons]
    split <;> omega

/-- A text without its escape sequences and with newlines for carriage returns. -/
def cleaned : List UInt8 → List UInt8
  | [] => []
  | c :: rest => if c = 0x1b then cleaned (afterEscape rest) else newline c :: cleaned rest
termination_by text => text.length
decreasing_by
  · exact Nat.lt_succ_of_le (afterEscape_length rest)
  · exact Nat.lt_succ_self _

theorem cleaned_length (text : List UInt8) : (cleaned text).length ≤ text.length := by
  fun_induction cleaned text with
  | case1 => exact Nat.le_refl 0
  | case2 rest ih => exact Nat.le_succ_of_le (Nat.le_trans ih (afterEscape_length rest))
  | case3 c rest plain ih => exact Nat.succ_le_succ ih

theorem cleaned_plain (text : List UInt8) :
    ∀ c ∈ cleaned text, c ≠ 0x1b ∧ c ≠ '\r'.toUInt8 := by
  fun_induction cleaned text with
  | case1 => exact forall_mem_nil _
  | case2 rest ih => exact ih
  | case3 c rest plain ih =>
    refine forall_mem_cons.mpr ⟨?_, ih⟩
    rw [newline]
    split
    · decide
    · next other => exact ⟨plain, other⟩

/-- What a state leaves of the rest of the text. -/
def AnsiState.rest : AnsiState → List UInt8 → List UInt8
  | .text => id
  | .esc => afterEscape
  | .csi => afterControl

variable {str out maxsize : Nat}

/-- The loop writes what is left of the text. It never overwrites what it has not read. -/
theorem sanitizeFrom_copies (left i pos : Nat) (state : AnsiState) (memory : Bytes)
    (behind : out + pos ≤ str + i ∨ str + i + left ≤ out + pos) (room : pos + left ≤ maxsize) :
    let text := cleaned (state.rest (readRange memory (str + i) left))
    sanitizeFrom str out maxsize left i pos state memory =
      (pos + text.length, copy memory (out + pos) text) := by
  induction left generalizing i pos state memory with
  | zero =>
    have nothing : cleaned (state.rest []) = [] := by
      cases state <;> simp [AnsiState.rest, afterEscape, afterControl, cleaned]
    simp [sanitizeFrom, readRange, nothing]
  | succ left ih =>
    rw [readRange_succ]
    cases state with
    | esc =>
      rw [sanitizeFrom, ih _ _ _ _ (by omega) (by omega)]
      simp only [AnsiState.rest, afterEscape, Nat.add_assoc]
      split <;> rfl
    | csi =>
      rw [sanitizeFrom, ih _ _ _ _ (by omega) (by omega)]
      simp only [AnsiState.rest, afterControl_cons, Nat.add_assoc]
      split <;> rfl
    | text =>
      rw [sanitizeFrom, AnsiState.rest, id, cleaned]
      split
      · exact ih _ _ _ _ (by omega) (by omega)
      · have unread (c : UInt8) : readRange (put memory (out + pos) c) (str + i + 1) left =
            readRange memory (str + i + 1) left :=
          readRange_congr fun offset inside => if_neg (by omega)
        split
        · -- the limit is reached only behind the last character
          obtain rfl : left = 0 := by omega
          simp [readRange, cleaned, ← copy_put]
        · rw [ih _ _ _ _ (by omega) (by omega)]
          simp only [AnsiState.rest, id, ← Nat.add_assoc, unread, copy_put, length_cons]
          congr 1
          omega

/-- The cleaned text and a zero behind it, also over the text that is read. -/
theorem klogSanitize_copies (memory : Bytes) (size : Nat)
    (buffers : out ≤ str ∨ str + size ≤ out) (fits : size ≤ maxsize) :
    let text := cleaned (readRange memory str size)
    klogSanitize memory str out size maxsize =
      (text.length, put (copy memory out text) (out + text.length) 0) := by
  rw [klogSanitize, sanitizeFrom_copies size 0 0 .text memory buffers (by omega)]
  simp [AnsiState.rest]

theorem readRange_ended (memory : Bytes) (out : Nat) (text : List UInt8) :
    readRange (put (copy memory out text) (out + text.length) 0) out text.length = text := by
  rw [readRange_congr fun offset inside => if_neg (by omega), readRange_copy]

/-- With a limit that the input fits into, `__klog_sanitize` leaves the text without its escape
sequences and with newlines for carriage returns, and changes nothing else. It leaves the same text
in the input's own buffer. -/
theorem klog_sanitize_cleans (memory : Bytes) (str out size maxsize : Nat)
    (buffers : out ≤ str ∨ str + size ≤ out) (fits : size ≤ maxsize) :
    let result := klogSanitize memory str out size maxsize
    let inPlace := klogSanitize memory str str size maxsize
    let text := readRange result.2 out result.1
    text = cleaned (readRange memory str size) ∧ 0x1b ∉ text ∧ '\r'.toUInt8 ∉ text ∧
      result.1 ≤ size ∧ result.2 (out + result.1) = 0 ∧
      (∀ probe, probe < out ∨ out + result.1 < probe → result.2 probe = memory probe) ∧
      inPlace.1 = result.1 ∧ readRange inPlace.2 str inPlace.1 = text := by
  have plain := cleaned_plain (readRange memory str size)
  have short := cleaned_length (readRange memory str size)
  rw [readRange_length] at short
  rw [klogSanitize_copies memory size buffers fits,
    klogSanitize_copies memory size (.inl (Nat.le_refl str)) fits]
  dsimp only
  rw [readRange_ended, readRange_ended]
  refine ⟨rfl, ?_, ?_, short, if_pos rfl, ?_, rfl, rfl⟩
  · intro escape
    exact (plain _ escape).1 rfl
  · intro carriage
    exact (plain _ carriage).2 rfl
  · intro probe outside
    rw [put, if_neg (by omega), copy_outside (by omega)]

theorem klog_sanitize_cleans_colour :
    let memory := copy (fun _ => 0) 0 [0x1b, '['.toUInt8, 'm'.toUInt8, 'a'.toUInt8, '\r'.toUInt8]
    let result := klogSanitize memory 0 0 5 5
    readRange result.2 0 result.1 = ['a'.toUInt8, '\n'.toUInt8] := by
  refine (klog_sanitize_cleans _ 0 0 5 5 (.inl (Nat.le_refl 0)) (Nat.le_refl 5)).1.trans ?_
  refine (congrArg cleaned (readRange_copy _ 0 [_, _, _, _, _])).trans ?_
  simp +decide [cleaned, afterEscape, afterControl, newline]

end Balrog.LogText
