import Balrog.Strtok

/-!
# The users in /etc/shadow

The kernel and the login program read the file with `strtok`. `init_user_manager` cuts lines into
fields with the same cursor that leads from line to line, and finds its way back with a position
of its own, which counts the lines but not the blank ones that `strtok` passes over. Neither
program sees an empty field. So a blank line hides what comes behind the next record, and an empty
field shifts those behind it.

The file is a list of comment lines, blank lines and records, separated by newlines; a newline at
the end is a blank line. The tree of users is the map of its keys. Files have 32-bit sizes. What
the login program does with terminal, shell and child process is left out.
-/

namespace Balrog.ShadowFile

open Function Strtok List

/-- `atoi`, in 32 bits. -/
def atoi (str : List UInt8) : BitVec 32 :=
  let value (digits : List UInt8) : BitVec 32 :=
    digits.foldl (fun result byte => result * 10 + byte.toBitVec.signExtend 32 - 48) 0
  match str with
  | 45 :: digits => -value digits
  | digits => value digits

/-- `user_data` -/
structure User where
  name : List UInt8
  uid : BitVec 32
  gid : BitVec 32
  home : List UInt8
  shell : List UInt8
deriving DecidableEq

/-- The table of users, by uid. -/
abbrev Users := BitVec 32 → Option User

/-- The loop of `init_user_manager`, at a line. `line[len]` is zero already, and a field that is
`NULL` is dereferenced. -/
def userLoop (size : Nat) : Nat → Tokenizer → Nat → Option Nat → Users → Option Users
  | 0, _, _, _, _ => none
  | _ + 1, _, _, none, users => some users
  | fuel + 1, tokens, currentPos, some line, users =>
    let currentPos := currentPos + (strlen tokens.buffer line + 1)
    if char tokens.buffer line = 35 then
      let (line, tokens) := strtok tokens none 10
      userLoop size fuel tokens currentPos line users
    else
      let (user, tokens) := strtok tokens (some line) 58
      let (_, tokens) := strtok tokens none 58
      let (uid, tokens) := strtok tokens none 58
      let (gid, tokens) := strtok tokens none 58
      let (home, tokens) := strtok tokens none 58
      let (shell, tokens) := strtok tokens none 58
      match user, uid, gid, home, shell with
      | some user, some uid, some gid, some home, some shell =>
        let cUsr : User :=
          { name := string tokens.buffer user
            uid := atoi (string tokens.buffer uid)
            gid := atoi (string tokens.buffer gid)
            home := string tokens.buffer home
            shell := string tokens.buffer shell }
        let users := update users cUsr.uid (some cUsr)
        if size ≤ currentPos then some users
        else
          let (line, tokens) := strtok tokens (some currentPos) 10
          userLoop size fuel tokens currentPos line users
      | _, _, _, _, _ => none

/-- `init_user_manager` on the content of the file. Every round moves `current_pos` or the cursor
on, so there are no more than twice as many as bytes. -/
def initUserManager (file : List UInt8) : Option Users :=
  let (line, tokens) := strtok ⟨file, 0⟩ (some 0) 10
  userLoop file.length (2 * file.length + 2) tokens 0 line fun _ => none

/-- The loop of `parse_shadow`, at a line: the rest of the line of the user, if there is one. -/
def findUser (username : List UInt8) :
    Nat → Tokenizer → Option Nat → Option (Option Nat × Tokenizer)
  | 0, _, _ => none
  | _ + 1, tokens, none => some (none, tokens)
  | fuel + 1, tokens, some cmd =>
    if char tokens.buffer cmd = 35 then
      let (cmd, tokens) := strtok tokens none 10
      findUser username fuel tokens cmd
    else
      let pwdStart := strcspn tokens.buffer cmd 58
      if pwdStart ≠ strlen tokens.buffer cmd then
        let tokens := { tokens with buffer := tokens.buffer.set (cmd + pwdStart) 0 }
        if string tokens.buffer cmd = username then some (some (cmd + pwdStart + 1), tokens)
        else
          let (cmd, tokens) := strtok tokens none 10
          findUser username fuel tokens cmd
      else
        let (cmd, tokens) := strtok tokens none 10
        findUser username fuel tokens cmd

/-- What `parse_shadow` finds for a user. -/
structure Login where
  password : List UInt8
  uid : BitVec 32
deriving DecidableEq

/-- `parse_shadow`: it does not return if the file is too large, or from a field that is `NULL`. -/
def parseShadow (file username : List UInt8) : Option (Option Login) := do
  if 4096 * 100 ≤ file.length then none
  else
    let (cmd, tokens) := strtok ⟨file, 0⟩ (some 0) 10
    let (userLine, tokens) ← findUser username (file.length + 2) tokens cmd
    match userLine with
    | none => some none
    | some userLine =>
      let (pwd, tokens) := strtok tokens (some userLine) 58
      let (uid, tokens') := strtok tokens none 58
      let pwd ← pwd
      let uid ← uid
      -- the password is copied before the next token is cut off
      some (some { password := string tokens.buffer pwd, uid := atoi (string tokens'.buffer uid) })

/-- `try_log_user`: the uid that the user gets, or none if the login is incorrect. The typed name is
copied without its zero to memory that holds something. -/
def tryLogUser (file typedName garbage typedPassword : List UInt8) :
    Option (Option (BitVec 32)) := do
  let found ← parseShadow file (string (typedName ++ garbage) 0)
  match found with
  | none => some none
  | some login => some (if login.password = typedPassword then some login.uid else none)

/-- The six fields of a user's line. -/
structure Record where
  name : List UInt8
  password : List UInt8
  uid : List UInt8
  gid : List UInt8
  home : List UInt8
  shell : List UInt8

/-- The lines of the file: comments, blank lines and users. -/
inductive Line where
  | comment (text : List UInt8)
  | blank
  | record (fields : Record)

/-- The text of a record behind its name. -/
def Record.rest (record : Record) : List UInt8 :=
  record.password ++ 58 :: (record.uid ++ 58 :: (record.gid ++ 58 :: (record.home ++ 58 ::
    record.shell)))

/-- The bytes of a line; a comment begins with a hash sign. -/
def Line.text : Line → List UInt8
  | .comment text => 35 :: text
  | .blank => []
  | .record fields => fields.name ++ 58 :: fields.rest

/-- The bytes of a file, with line feeds between its lines. -/
def content : List Line → List UInt8
  | [] => []
  | line :: rest => line.text ++ if rest.isEmpty then [] else 10 :: content rest

/-- The users of a file, in their order. -/
def records : List Line → List Record
  | [] => []
  | .record fields :: rest => fields :: records rest
  | _ :: rest => records rest

/-- A field has no colon, no newline and no zero. -/
def Field (field : List UInt8) : Prop := ∀ byte ∈ field, byte ≠ 58 ∧ byte ≠ 10 ∧ byte ≠ 0

/-- No field holds a colon, a line feed or a zero byte. -/
structure Record.Formed (record : Record) : Prop where
  name : Field record.name
  password : Field record.password
  uid : Field record.uid
  gid : Field record.gid
  home : Field record.home
  shell : Field record.shell
  noComment : record.name.head? ≠ some 35

/-- No line holds a line feed or a zero byte. -/
def Line.Formed : Line → Prop
  | .comment text => ∀ byte ∈ text, byte ≠ 10 ∧ byte ≠ 0
  | .blank => True
  | .record fields => fields.Formed

/-- The user that a line describes, without the password. -/
def Record.user (record : Record) : User :=
  { name := record.name, uid := atoi record.uid, gid := atoi record.gid, home := record.home,
    shell := record.shell }

/-- The table holds the users of the file and no others. -/
def LoadedFrom (lines : List Line) (users : Users) : Prop :=
  (∀ uid user, users uid = some user ↔
    ∃ record ∈ records lines, atoi record.uid = uid ∧ record.user = user) ∧
  (records lines).Pairwise fun first second => atoi first.uid ≠ atoi second.uid

/-- No field is empty. -/
structure Record.Full (record : Record) : Prop where
  name : record.name ≠ []
  password : record.password ≠ []
  uid : record.uid ≠ []
  gid : record.gid ≠ []
  home : record.home ≠ []
  shell : record.shell ≠ []

/-- There is at most one record, and no blank line before it. -/
def Single : List Line → Prop
  | [] => True
  | .comment _ :: rest => Single rest
  | .blank :: rest => records rest = []
  | .record _ :: rest => records rest = []

/-- At most one blank line comes before the last record, and none before the others. -/
def Compact : List Line → Prop
  | [] => True
  | .blank :: rest => Single rest
  | _ :: rest => Compact rest

/-- What the kernel needs: full records with different uids, and no blank line before them, but for
one before the last record. -/
structure Loadable (lines : List Line) : Prop where
  full : ∀ record ∈ records lines, record.Full
  distinct : (records lines).Pairwise fun first second => atoi first.uid ≠ atoi second.uid
  compact : Compact lines

/-- The first user of the file with a name. -/
def recordOf (lines : List Line) (name : List UInt8) : Option Record :=
  (records lines).find? fun record => record.name = name

/-- What follows a line once its newline is a zero. -/
def ended (rest : List Line) : List UInt8 := if rest.isEmpty then [] else 0 :: content rest

section Lines

variable {line : Line} {rest : List Line} {before : List UInt8} {current : Nat}

theorem ended_ends (rest : List Line) : Ends (ended rest) := by
  intro byte first
  rw [ended] at first
  split at first
  · cases first
  · exact (Option.some.inj first).symm

/-- A line that is not blank is one token. -/
theorem line_word (formed : line.Formed) (some' : line.text ≠ []) : Word 10 line.text := by
  refine ⟨some', ?_⟩
  cases line with
  | comment text =>
    intro byte inside
    rcases mem_cons.mp inside with rfl | later
    · decide
    · exact formed byte later
  | blank => exact absurd rfl some'
  | record fields =>
    obtain ⟨name, password, uid, gid, home, shell, _⟩ := formed
    intro byte inside
    simp only [Line.text, Record.rest, mem_append, mem_cons] at inside
    have colon : (58 : UInt8) ≠ 10 ∧ (58 : UInt8) ≠ 0 := by decide
    rcases inside with here | rfl | here | rfl | here | rfl | here | rfl | here | rfl | here
    · exact (name byte here).2
    · exact colon
    · exact (password byte here).2
    · exact colon
    · exact (uid byte here).2
    · exact colon
    · exact (gid byte here).2
    · exact colon
    · exact (home byte here).2
    · exact colon
    · exact (shell byte here).2

/-- The length of a token is that of its line. -/
theorem strlen_line (formed : line.Formed) (some' : line.text ≠ []) (before : List UInt8) :
    strlen (before ++ (line.text ++ ended rest)) before.length = line.text.length := by
  have word := line_word formed some'
  rw [strlen, string_at before _ (fun zero => (word.plain 0 zero).2 rfl) (ended_ends rest)]

/-- The pointer behind a line whose newline is a zero. -/
def behind (before : List UInt8) (line : Line) (rest : List Line) : Nat :=
  before.length + line.text.length + if rest.isEmpty then 0 else 1

/-- The next token is the first line, if it is not blank. -/
theorem strtok_line (formed : line.Formed) (some' : line.text ≠ []) :
    strtok ⟨before ++ content (line :: rest), current⟩ (some before.length) 10 =
      (some before.length, ⟨before ++ (line.text ++ ended rest), behind before line rest⟩) := by
  have word := line_word formed some'
  rw [content, ended, behind]
  cases rest with
  | nil => exact strtok_last before word (by simp [Ends])
  | cons next others =>
    refine (strtok_word before word (by decide) _).trans ?_
    simp [Nat.add_assoc]

/-- The tokenizer's first call on the lines that stand behind the bytes already cut. -/
def atLines (before : List UInt8) (lines : List Line) : Option Nat × Tokenizer :=
  strtok ⟨before ++ content lines, 0⟩ (some before.length) 10

/-- Behind the last line there is no token. -/
theorem atLines_nil (before : List UInt8) : (atLines before []).1 = none := by
  rw [atLines, strtok_none before (content []) (by simp [Ends, content])]

/-- The next token is the next line. -/
theorem atLines_line (formed : line.Formed) (some' : line.text ≠ []) :
    atLines before (line :: rest) =
      (some before.length, ⟨before ++ (line.text ++ ended rest), behind before line rest⟩) :=
  strtok_line formed some'

/-- A blank line is passed over together with its line feed. -/
theorem atLines_blank (before : List UInt8) (rest : List Line) : ∃ before',
    before'.length + (content rest).length = before.length + (content (.blank :: rest)).length ∧
    atLines before (.blank :: rest) = atLines before' rest := by
  cases rest with
  | nil => exact ⟨before, rfl, rfl⟩
  | cons next others =>
    refine ⟨before ++ [10], ?_, strtok_skip before _ (by decide)⟩
    simp only [content, Line.text, isEmpty_cons, Bool.false_eq_true, if_false,
      length_append, length_cons, length_nil]
    omega

/-- The next token behind a line, whatever became of its text. -/
theorem atLines_next (before : List UInt8) (line : Line) (rest : List Line) (text : List UInt8)
    (same : text.length = line.text.length) : ∃ before',
    before'.length = behind before line rest ∧
    strtok ⟨before ++ (text ++ ended rest), behind before line rest⟩ none 10 =
      atLines before' rest := by
  cases rest with
  | nil =>
    refine ⟨before ++ text, by simp [behind, same], ?_⟩
    have place : behind before line [] = (before ++ text).length := by simp [behind, same]
    have buffer : before ++ (text ++ ended []) = (before ++ text) ++ content [] := by
      simp [ended, content]
    rw [atLines, place, buffer]
    rfl
  | cons next others =>
    have place : behind before line (next :: others) = (before ++ text ++ [0]).length := by
      simp [behind, same, Nat.add_assoc]
    have buffer : before ++ (text ++ ended (next :: others)) =
        (before ++ text ++ [0]) ++ content (next :: others) := by
      simp [ended]
    refine ⟨before ++ text ++ [0], place.symm, ?_⟩
    rw [atLines, place, buffer]
    rfl

/-- The place behind a line and what remains add up to the whole. -/
theorem behind_length (before : List UInt8) (line : Line) (rest : List Line) :
    behind before line rest + (content rest).length =
      before.length + (content (line :: rest)).length := by
  rw [behind, content, length_append]
  cases rest with
  | nil => simp [content]
  | cons next others =>
    simp only [isEmpty_cons, Bool.false_eq_true, if_false, length_cons]
    omega

end Lines

variable {text buffer back : List UInt8} {lines : List Line}

section Fields

variable {field : List UInt8}

/-- A field that is not empty is one token. -/
theorem field_word (isField : Field field) (some' : field ≠ []) :
    Word 58 field :=
  ⟨some', fun byte inside => ⟨(isField byte inside).1, (isField byte inside).2.2⟩⟩

theorem field_string (isField : Field field) : 0 ∉ field :=
  fun inside => (isField 0 inside).2.2 rfl

/-- The next token is the next field. -/
theorem strtok_field (before : List UInt8) (isField : Field field) (some' : field ≠ [])
    (more : List UInt8) :
    strtok ⟨before ++ (field ++ 58 :: more), before.length⟩ none 58 =
      (some before.length, ⟨(before ++ field ++ [0]) ++ more, (before ++ field ++ [0]).length⟩) :=
  strtok_word before (field_word isField some') (by decide) more

/-- The last field ends with the line. -/
theorem strtok_final {rest : List UInt8} (before : List UInt8) (isField : Field field)
    (some' : field ≠ []) (ends : Ends rest) :
    strtok ⟨before ++ (field ++ rest), before.length⟩ none 58 =
      (some before.length, ⟨before ++ (field ++ rest), before.length + field.length⟩) :=
  strtok_last before (field_word isField some') ends

/-- A field that was cut out is a string by itself. -/
theorem string_field (front : List UInt8) (isField : Field field) (ends : Ends back)
    (whole : buffer = front ++ (field ++ back)) : string buffer front.length = field := by
  rw [whole]
  exact string_at front field (field_string isField) ends

end Fields

/-- The table after a user's line has been read. -/
def addUser (users : Users) (record : Record) : Users :=
  update users (atoi record.uid) (some record.user)

section Loading

variable {line : Line} {rest : List Line} {before : List UInt8} {fields : Record} {users : Users}
  {size fuel currentPos : Nat}

/-- A user's line after the tokenizer has put zeros for its colons. -/
def Record.cut (fields : Record) : List UInt8 :=
  fields.name ++ 0 :: (fields.password ++ 0 :: (fields.uid ++ 0 :: (fields.gid ++ 0 ::
    (fields.home ++ 0 :: fields.shell))))

/-- Cutting a line into fields keeps its length. -/
theorem Record.cut_length (fields : Record) :
    fields.cut.length = (Line.record fields).text.length := by
  simp [Record.cut, Line.text, Record.rest]

/-- A user's line does not begin as a comment does. -/
theorem record_first (formed : fields.Formed) (before tail : List UInt8) :
    char (before ++ ((Line.record fields).text ++ tail)) before.length ≠ 35 := by
  rw [char_here, Line.text]
  cases isName : fields.name with
  | nil => exact fun same => absurd (show (58 : UInt8) = 35 from same) (by decide)
  | cons byte others =>
    intro same
    refine formed.noComment ?_
    rw [isName]
    exact congrArg some same

theorem comment_first (text before tail : List UInt8) :
    char (before ++ ((Line.comment text).text ++ tail)) before.length = 35 := by
  rw [char_here]
  rfl

theorem zero_ends (rest : List UInt8) : Ends (0 :: rest) :=
  fun _ first => (Option.some.inj first).symm

/-- The loop passes over a comment. -/
theorem userLoop_comment (formed : (Line.comment text).Formed) (before : List UInt8)
    (rest : List Line) : ∃ before', before'.length = behind before (.comment text) rest ∧
    userLoop size (fuel + 1) (atLines before (.comment text :: rest)).2 currentPos
        (atLines before (.comment text :: rest)).1 users =
      userLoop size fuel (atLines before' rest).2
        (currentPos + ((Line.comment text).text.length + 1)) (atLines before' rest).1 users := by
  have some' : (Line.comment text).text ≠ [] := by simp [Line.text]
  obtain ⟨before', place, same⟩ := atLines_next before (.comment text) rest _ rfl
  refine ⟨before', place, ?_⟩
  rw [atLines_line formed some', userLoop]
  simp only [strlen_line formed some' before, if_pos (comment_first text before (ended rest)), same]

/-- Nothing but blank lines has no content. -/
theorem records_empty (empty : content lines = []) : records lines = [] := by
  induction lines with
  | nil => rfl
  | cons line rest ih =>
    rw [content, append_eq_nil_iff] at empty
    obtain ⟨noText, noRest⟩ := empty
    cases line with
    | comment text => simp [Line.text] at noText
    | record fields => simp [Line.text] at noText
    | blank =>
      cases rest with
      | nil => rfl
      | cons next others => simp at noRest

/-- If the position is at the end of the file behind a record, nothing but a newline follows it. -/
theorem records_behind
    (isSize : before.length + (content (.record fields :: rest)).length = size)
    (finished : size ≤ before.length + ((Line.record fields).text.length + 1)) :
    records rest = [] := by
  refine records_empty ?_
  have total := behind_length before (.record fields) rest
  cases rest with
  | nil => rfl
  | cons next others =>
    refine length_eq_zero_iff.mp ?_
    simp only [behind, isEmpty_cons, Bool.false_eq_true, if_false] at total
    omega

/-- Before the end of the file the position behind a record is that of the next line. -/
theorem position_behind
    (isSize : before.length + (content (.record fields :: rest)).length = size)
    (goesOn : before.length + ((Line.record fields).text.length + 1) < size) :
    before.length + ((Line.record fields).text.length + 1) =
      behind before (.record fields) rest := by
  have total := behind_length before (.record fields) rest
  cases rest with
  | nil =>
    have flat : behind before (.record fields) [] =
        before.length + (Line.record fields).text.length := rfl
    have nothing : (content []).length = 0 := rfl
    omega
  | cons next others => rfl

/-- A round of the loop at a record, wherever its position is: the record is cut into strings, and
the loop goes on at the position. -/
theorem userLoop_fields (formed : (Line.record fields).Formed) (full : fields.Full)
    (before : List UInt8) (rest : List Line) :
    userLoop size (fuel + 1) (atLines before (.record fields :: rest)).2 currentPos
        (atLines before (.record fields :: rest)).1 users =
      if size ≤ currentPos + ((Line.record fields).text.length + 1) then
        some (addUser users fields)
      else
        -- `strtok` begins anew, whatever place it kept
        let next := strtok ⟨before ++ (fields.cut ++ ended rest), 0⟩
          (some (currentPos + ((Line.record fields).text.length + 1))) 10
        userLoop size fuel next.2 (currentPos + ((Line.record fields).text.length + 1)) next.1
          (addUser users fields) := by
  have length := @strlen_line (.record fields) rest formed (by simp [Line.text]) before
  have noComment := record_first formed before (ended rest)
  have whole : before ++ ((Line.record fields).text ++ ended rest) =
      before ++ (fields.name ++ 58 :: (fields.password ++ 58 :: (fields.uid ++ 58 ::
        (fields.gid ++ 58 :: (fields.home ++ 58 :: (fields.shell ++ ended rest)))))) := by
    simp [Line.text, Record.rest]
  have final : before ++ fields.name ++ [0] ++ fields.password ++ [0] ++ fields.uid ++ [0] ++
      fields.gid ++ [0] ++ fields.home ++ [0] ++ (fields.shell ++ ended rest) =
        before ++ (fields.cut ++ ended rest) := by
    simp [Record.cut]
  have name := string_field before formed.name (zero_ends (fields.password ++ 0 :: (fields.uid ++
    0 :: (fields.gid ++ 0 :: (fields.home ++ 0 :: (fields.shell ++ ended rest))))))
    (show before ++ (fields.cut ++ ended rest) = _ by simp [Record.cut])
  have uid := string_field (before ++ fields.name ++ [0] ++ fields.password ++ [0]) formed.uid
    (zero_ends (fields.gid ++ 0 :: (fields.home ++ 0 :: (fields.shell ++ ended rest))))
    (show before ++ (fields.cut ++ ended rest) = _ by simp [Record.cut])
  have gid := string_field (before ++ fields.name ++ [0] ++ fields.password ++ [0] ++ fields.uid ++
    [0]) formed.gid (zero_ends (fields.home ++ 0 :: (fields.shell ++ ended rest)))
    (show before ++ (fields.cut ++ ended rest) = _ by simp [Record.cut])
  have home := string_field (before ++ fields.name ++ [0] ++ fields.password ++ [0] ++ fields.uid ++
    [0] ++ fields.gid ++ [0]) formed.home (zero_ends (fields.shell ++ ended rest))
    (show before ++ (fields.cut ++ ended rest) = _ by simp [Record.cut])
  have shell := string_field (before ++ fields.name ++ [0] ++ fields.password ++ [0] ++
    fields.uid ++ [0] ++ fields.gid ++ [0] ++ fields.home ++ [0]) formed.shell (ended_ends rest)
    final.symm
  rw [atLines_line formed (by simp [Line.text]), userLoop]
  simp only [length, if_neg noComment]
  rw [whole, strtok_word before (field_word formed.name full.name) (by decide)]
  simp only [strtok_field _ formed.password full.password, strtok_field _ formed.uid full.uid,
    strtok_field _ formed.gid full.gid, strtok_field _ formed.home full.home,
    strtok_final _ formed.shell full.shell (ended_ends rest)]
  simp only [final, name, uid, gid, home, shell]
  rfl

/-- A round of the loop at a record, with its position at the record. -/
theorem userLoop_record (formed : (Line.record fields).Formed) (full : fields.Full)
    (isSize : before.length + (content (.record fields :: rest)).length = size) :
    ∃ before', before'.length = behind before (.record fields) rest ∧
    userLoop size (fuel + 1) (atLines before (.record fields :: rest)).2 before.length
        (atLines before (.record fields :: rest)).1 users =
      if size ≤ before.length + ((Line.record fields).text.length + 1) then
        some (addUser users fields)
      else userLoop size fuel (atLines before' rest).2 before'.length (atLines before' rest).1
        (addUser users fields) := by
  obtain ⟨before', place, same⟩ := atLines_next before (.record fields) rest fields.cut
    fields.cut_length
  refine ⟨before', place, (userLoop_fields formed full before rest).trans ?_⟩
  split
  · rfl
  · next goesOn =>
    rw [position_behind isSize (Nat.lt_of_not_le goesOn), place, ← same]
    rfl

/-- A round of the loop at a record behind one blank line. The position is one byte short, so the
loop looks for the next line at the zero behind the record and ends. -/
theorem userLoop_late (formed : (Line.record fields).Formed) (full : fields.Full)
    (isSize : before.length + (content (.record fields :: rest)).length = size)
    (late : currentPos + 1 = before.length) :
    userLoop size (fuel + 2) (atLines before (.record fields :: rest)).2 currentPos
        (atLines before (.record fields :: rest)).1 users = some (addUser users fields) := by
  refine (userLoop_fields formed full before rest).trans ?_
  split
  · rfl
  · next goesOn =>
    have place : currentPos + ((Line.record fields).text.length + 1) =
        (before ++ fields.cut).length := by
      rw [length_append, fields.cut_length]
      omega
    rw [place, ← append_assoc, strtok_none _ _ (ended_ends rest)]
    rfl

/-- The loop adds the users of the records, as long as its position is that of the next line or
there are no more records. The induction is on the lines. -/
theorem userLoop_lines (lines : List Line) (formed : ∀ line ∈ lines, line.Formed)
    (full : ∀ record ∈ records lines, record.Full) (before : List UInt8)
    (enough : lines.length < fuel)
    (isSize : before.length + (content lines).length = size)
    (inStep : records lines = [] ∨ currentPos = before.length ∧ Compact lines ∨
      currentPos + 1 = before.length ∧ Single lines) :
    userLoop size fuel (atLines before lines).2 currentPos (atLines before lines).1 users =
      some ((records lines).foldl addUser users) := by
  induction lines generalizing before fuel currentPos users with
  | nil =>
    obtain ⟨fuel, rfl⟩ := Nat.exists_eq_add_one_of_ne_zero (Nat.ne_of_gt enough)
    rw [atLines_nil]
    rfl
  | cons line rest ih =>
    obtain ⟨here, restFormed⟩ := forall_mem_cons.mp formed
    rw [length_cons] at enough
    cases line with
    | blank =>
      obtain ⟨before', length, same⟩ := atLines_blank before rest
      rw [same]
      refine ih restFormed full before' (by omega) (by omega) ?_
      rcases inStep with noMore | ⟨rfl, compact⟩ | ⟨_, noMore⟩
      · exact .inl noMore
      · cases rest with
        | nil => exact .inl rfl
        | cons next others =>
          refine .inr (.inr ⟨?_, compact⟩)
          simp only [content, Line.text, isEmpty_cons, Bool.false_eq_true, if_false,
            length_append, length_cons, length_nil] at length
          omega
      · exact .inl noMore
    | comment text =>
      obtain ⟨fuel, rfl⟩ := Nat.exists_eq_add_one_of_ne_zero (Nat.ne_of_gt (by omega : 0 < fuel))
      obtain ⟨before', length, same⟩ := userLoop_comment here before rest
      have total := behind_length before (.comment text) rest
      rw [same]
      refine ih restFormed full before' (by omega) (by omega) ?_
      rcases inStep with noMore | ⟨rfl, compact⟩ | ⟨late, single⟩
      · exact .inl noMore
      · cases rest with
        | nil => exact .inl rfl
        | cons next others => exact .inr (.inl ⟨by rw [length]; rfl, compact⟩)
      · cases rest with
        | nil => exact .inl rfl
        | cons next others =>
          refine .inr (.inr ⟨?_, single⟩)
          rw [length, behind, ← late]
          simp only [isEmpty_cons, Bool.false_eq_true, if_false]
          omega
    | record fields =>
      obtain ⟨isFull, restFull⟩ := forall_mem_cons.mp full
      rcases inStep.resolve_left (by simp [records]) with ⟨rfl, compact⟩ | ⟨late, noMore⟩
      rotate_left
      · obtain ⟨fuel, rfl⟩ : ∃ more, fuel = more + 2 := ⟨fuel - 2, by omega⟩
        rw [userLoop_late here isFull isSize late, records, show records rest = [] from noMore]
        rfl
      obtain ⟨fuel, rfl⟩ := Nat.exists_eq_add_one_of_ne_zero (Nat.ne_of_gt (by omega : 0 < fuel))
      have total := behind_length before (.record fields) rest
      obtain ⟨before', length, same⟩ := userLoop_record here isFull isSize
      rw [same]
      split
      · next finished =>
        rw [records, records_behind isSize finished]
        rfl
      · exact ih restFormed restFull before' (by omega) (by omega) (.inr (.inl ⟨rfl, compact⟩))

/-- A file has fewer lines than it has bytes and two. -/
theorem lines_le (lines : List Line) : lines.length ≤ (content lines).length + 1 := by
  induction lines with
  | nil => exact Nat.zero_le _
  | cons line rest ih =>
    rw [content, length_append, length_cons]
    cases rest with
    | nil => simp
    | cons next others =>
      simp only [isEmpty_cons, Bool.false_eq_true, if_false, length_cons] at *
      omega

/-- Users with different uids do not replace one another. -/
theorem foldl_addUser (list : List Record)
    (distinct : list.Pairwise fun first second => atoi first.uid ≠ atoi second.uid)
    (users : Users) (uid : BitVec 32) (user : User) :
    list.foldl addUser users uid = some user ↔
      (∃ record ∈ list, atoi record.uid = uid ∧ record.user = user) ∨
      (∀ record ∈ list, atoi record.uid ≠ uid) ∧ users uid = some user := by
  induction list generalizing users with
  | nil => simp
  | cons record rest ih =>
    rw [pairwise_cons] at distinct
    rw [foldl_cons, ih distinct.2]
    by_cases same : atoi record.uid = uid
    · have others : ∀ other ∈ rest, atoi other.uid ≠ uid :=
        fun other inside equal => distinct.1 other inside (same.trans equal.symm)
      have added : addUser users record uid = some record.user := by
        rw [addUser, same, update_self]
      rw [added]
      constructor
      · rintro (⟨other, inside, equal, _⟩ | ⟨_, isUser⟩)
        · exact absurd equal (others other inside)
        · exact .inl ⟨record, mem_cons_self, same, Option.some.inj isUser⟩
      · rintro (⟨other, inside, equal, isUser⟩ | ⟨none', _⟩)
        · rcases mem_cons.mp inside with rfl | later
          · exact .inr ⟨others, congrArg some isUser⟩
          · exact absurd equal (others other later)
        · exact absurd same (none' record mem_cons_self)
    · have kept : addUser users record uid = users uid := update_of_ne (Ne.symm same) _ _
      rw [kept]
      simp [same]

/-- A loadable file is loaded: the table holds its users and no others. -/
theorem initUserManager_lines (formed : ∀ line ∈ lines, line.Formed) (loadable : Loadable lines) :
    ∃ users, initUserManager (content lines) = some users ∧ LoadedFrom lines users := by
  have count := lines_le lines
  have loads : userLoop (content lines).length (2 * (content lines).length + 2)
      (atLines [] lines).2 0 (atLines [] lines).1 (fun _ => none) =
        some ((records lines).foldl addUser fun _ => none) :=
    userLoop_lines lines formed loadable.full [] (by omega) (Nat.zero_add _)
      (.inr (.inl ⟨rfl, loadable.compact⟩))
  refine ⟨_, loads, fun uid user => ?_, loadable.distinct⟩
  rw [foldl_addUser _ loadable.distinct]
  simp

end Loading

section Login

variable {before : List UInt8} {fields : Record} {username : List UInt8} {fuel : Nat}

/-- The search for a user passes over a comment. -/
theorem findUser_comment (formed : (Line.comment text).Formed) (before : List UInt8)
    (rest : List Line) : ∃ before',
    findUser username (fuel + 1) (atLines before (.comment text :: rest)).2
        (atLines before (.comment text :: rest)).1 =
      findUser username fuel (atLines before' rest).2 (atLines before' rest).1 := by
  obtain ⟨before', _, same⟩ := atLines_next before (.comment text) rest _ rfl
  refine ⟨before', ?_⟩
  rw [atLines_line formed (by simp [Line.text]), findUser]
  simp only [if_pos (comment_first text before (ended rest)), same]

/-- One round of the search, at a record, whose name is cut off. -/
theorem findUser_record (formed : (Line.record fields).Formed) (before : List UInt8)
    (rest : List Line) : ∃ before',
    findUser username (fuel + 1) (atLines before (.record fields :: rest)).2
        (atLines before (.record fields :: rest)).1 =
      if fields.name = username then
        some (some (before ++ fields.name ++ [0]).length,
          ⟨(before ++ fields.name ++ [0]) ++ (fields.rest ++ ended rest),
            behind before (.record fields) rest⟩)
      else findUser username fuel (atLines before' rest).2 (atLines before' rest).1 := by
  have length := @strlen_line (.record fields) rest formed (by simp [Line.text]) before
  have whole : before ++ ((Line.record fields).text ++ ended rest) =
      before ++ (fields.name ++ 58 :: (fields.rest ++ ended rest)) := by
    simp [Line.text]
  have colon : strcspn (before ++ ((Line.record fields).text ++ ended rest)) before.length 58 =
      fields.name.length := by
    rw [whole]
    exact strcspn_at before (fun byte inside => ⟨(formed.name byte inside).1,
      (formed.name byte inside).2.2⟩) fun byte first => .inl (Option.some.inj first).symm
  have shorter : fields.name.length ≠ (Line.record fields).text.length := by
    simp [Line.text]
  have cut : (before ++ ((Line.record fields).text ++ ended rest)).set
      (before.length + fields.name.length) 0 =
        before ++ ((fields.name ++ 0 :: fields.rest) ++ ended rest) := by
    rw [whole, ← append_assoc, ← length_append, set_append_right _ _ (Nat.le_refl _)]
    simp
  have name : string (before ++ ((fields.name ++ 0 :: fields.rest) ++ ended rest)) before.length =
      fields.name :=
    string_field before formed.name (zero_ends (fields.rest ++ ended rest)) (by simp)
  obtain ⟨before', _, same⟩ := atLines_next before (.record fields) rest
    (fields.name ++ 0 :: fields.rest) (by simp [Line.text])
  refine ⟨before', ?_⟩
  rw [atLines_line formed (by simp [Line.text]), findUser]
  simp only [if_neg (record_first formed before (ended rest)), colon, length, if_pos shorter, cut,
    name, same]
  split
  · simp [Nat.add_assoc]
  · rfl

/-- The search stops behind the name of the first record with it. The induction is on the lines. -/
theorem findUser_lines (lines : List Line) (formed : ∀ line ∈ lines, line.Formed)
    (isRecord : recordOf lines username = some fields) (before : List UInt8)
    (enough : lines.length < fuel) :
    ∃ front tail current, Ends tail ∧
      findUser username fuel (atLines before lines).2 (atLines before lines).1 =
        some (some front.length, ⟨front ++ (fields.rest ++ tail), current⟩) := by
  induction lines generalizing before fuel with
  | nil => cases isRecord
  | cons line rest ih =>
    obtain ⟨here, restFormed⟩ := forall_mem_cons.mp formed
    rw [length_cons] at enough
    obtain ⟨fuel, rfl⟩ := Nat.exists_eq_add_one_of_ne_zero (Nat.ne_of_gt (by omega : 0 < fuel))
    cases line with
    | blank =>
      obtain ⟨before', _, same⟩ := atLines_blank before rest
      rw [same]
      exact ih restFormed isRecord before' (by omega)
    | comment text =>
      obtain ⟨before', same⟩ := findUser_comment here before rest
      rw [same]
      exact ih restFormed isRecord before' (by omega)
    | record first =>
      obtain ⟨before', found⟩ := findUser_record here before rest
      rw [found]
      rw [recordOf, records, find?_cons] at isRecord
      by_cases isName : first.name = username
      · simp only [isName, decide_true] at isRecord
        obtain rfl := Option.some.inj isRecord
        rw [if_pos isName]
        exact ⟨_, _, _, ended_ends rest, rfl⟩
      · simp only [isName, decide_false] at isRecord
        rw [if_neg isName]
        exact ih restFormed isRecord before' (by omega)

/-- The users of a well formed file are well formed. -/
theorem record_formed (formed : ∀ line ∈ lines, line.Formed) {record : Record}
    (member : record ∈ records lines) : record.Formed := by
  induction lines with
  | nil => cases member
  | cons line rest ih =>
    obtain ⟨here, restFormed⟩ := forall_mem_cons.mp formed
    cases line with
    | blank => exact ih restFormed member
    | comment text => exact ih restFormed member
    | record first =>
      rcases mem_cons.mp member with rfl | later
      · exact here
      · exact ih restFormed later

/-- What `parse_shadow` finds for the name of a record. -/
theorem parseShadow_lines (formed : ∀ line ∈ lines, line.Formed)
    (small : (content lines).length < 4096 * 100) (isRecord : recordOf lines username = some fields)
    (password : fields.password ≠ []) (uid : fields.uid ≠ []) :
    parseShadow (content lines) username =
      some (some { password := fields.password, uid := atoi fields.uid }) := by
  have isFormed := record_formed formed (mem_of_find?_eq_some isRecord)
  have count := lines_le lines
  obtain ⟨front, tail, current, ends, found⟩ := findUser_lines lines formed isRecord []
    (show lines.length < (content lines).length + 2 by omega)
  have whole : front ++ (fields.rest ++ tail) = front ++ (fields.password ++ 58 :: (fields.uid ++
      58 :: (fields.gid ++ 58 :: (fields.home ++ 58 :: (fields.shell ++ tail))))) := by
    simp [Record.rest]
  rw [whole] at found
  have first := string_field front isFormed.password (zero_ends (fields.uid ++ 58 :: (fields.gid ++
    58 :: (fields.home ++ 58 :: (fields.shell ++ tail)))))
    (show front ++ fields.password ++ [0] ++ (fields.uid ++ 58 :: (fields.gid ++ 58 ::
      (fields.home ++ 58 :: (fields.shell ++ tail)))) = _ by simp)
  have second := string_field (front ++ fields.password ++ [0]) isFormed.uid
    (zero_ends (fields.gid ++ 58 :: (fields.home ++ 58 :: (fields.shell ++ tail))))
    (show front ++ fields.password ++ [0] ++ fields.uid ++ [0] ++ (fields.gid ++ 58 ::
      (fields.home ++ 58 :: (fields.shell ++ tail))) = _ by simp)
  rw [parseShadow, if_neg (Nat.not_le.mpr small)]
  change (findUser username _ (atLines [] lines).2 (atLines [] lines).1).bind _ = _
  rw [found, Option.bind_some]
  simp only [strtok_word front (field_word isFormed.password password) (by decide),
    strtok_field _ isFormed.uid uid, Option.bind_eq_bind, Option.bind_some, first, second]

end Login

/-- A record that the login program reads: its password and uid are not empty, the file is not too
large, and the memory behind the typed name is zero. -/
structure Readable (lines : List Line) (garbage : List UInt8) (record : Record) : Prop where
  small : (content lines).length < 4096 * 100
  password : record.password ≠ []
  uid : record.uid ≠ []
  ended : Ends garbage

/-- The kernel loads one user for each record of a loadable file, and the login program compares
with the password of the record that has the typed name and logs in with its uid. -/
theorem shadow_read (lines : List Line) (formed : ∀ line ∈ lines, line.Formed) :
    (Loadable lines →
      ∃ users, initUserManager (content lines) = some users ∧ LoadedFrom lines users) ∧
    ∀ typedName garbage typedPassword record, recordOf lines typedName = some record →
      Readable lines garbage record →
        tryLogUser (content lines) typedName garbage typedPassword =
          some (if record.password = typedPassword then some (atoi record.uid) else none) := by
  refine ⟨initUserManager_lines formed, ?_⟩
  intro typedName garbage typedPassword record isRecord readable
  have isFormed := record_formed formed (mem_of_find?_eq_some isRecord)
  have isName : record.name = typedName := by
    have found := find?_some isRecord
    exact of_decide_eq_true found
  have typed : string (typedName ++ garbage) 0 = typedName :=
    string_at [] typedName (isName ▸ field_string isFormed.name) readable.ended
  rw [tryLogUser, typed,
    parseShadow_lines formed readable.small isRecord readable.password readable.uid]
  rfl

/-- The record `root:x:0:0:/:s`. -/
def rootRecord : Record := ⟨[114, 111, 111, 116], [120], [48], [48], [47], [115]⟩

/-- The record `u::1:0:/:s`, which has no password. -/
def openRecord : Record := ⟨[117], [], [49], [48], [47], [115]⟩

/-- The record `u:y:1:1:/:s`. -/
def userRecord : Record := ⟨[117], [121], [49], [49], [47], [115]⟩

/-- A file with a comment and blank lines around its two users. -/
def plainFile : List Line := [.comment [], .record rootRecord, .blank, .record userRecord, .blank]

instance (field : List UInt8) : Decidable (Field field) :=
  List.decidableBAll (fun byte => byte ≠ 58 ∧ byte ≠ 10 ∧ byte ≠ 0) field

/-- The users of a file. -/
theorem shadow_read_plain :
    (∃ users, initUserManager (content plainFile) = some users ∧ LoadedFrom plainFile users) ∧
    tryLogUser (content plainFile) [117] [] [121] = some (some 1) := by
  have rootFormed : rootRecord.Formed :=
    ⟨by decide, by decide, by decide, by decide, by decide, by decide, by decide⟩
  have userFormed : userRecord.Formed :=
    ⟨by decide, by decide, by decide, by decide, by decide, by decide, by decide⟩
  have rootFull : rootRecord.Full :=
    ⟨by decide, by decide, by decide, by decide, by decide, by decide⟩
  have userFull : userRecord.Full :=
    ⟨by decide, by decide, by decide, by decide, by decide, by decide⟩
  have formed : ∀ line ∈ plainFile, line.Formed := by
    simpa [plainFile, Line.Formed] using ⟨rootFormed, userFormed⟩
  have full : ∀ record ∈ records plainFile, record.Full := by
    simpa [plainFile, records] using ⟨rootFull, userFull⟩
  have loadable : Loadable plainFile := ⟨full, by decide, rfl⟩
  have read := shadow_read plainFile formed
  exact ⟨read.1 loadable, read.2 [117] [] [121] userRecord rfl
    ⟨by decide, by decide, by decide, fun _ first => by cases first⟩⟩

/-- A file that begins with a blank line. -/
def blankFile : List Line := [.blank, .record rootRecord, .record userRecord]

/-- The second record behind a blank line is not loaded. And without a password, the uid is taken
for the password and the gid for the uid. -/
theorem shadow_misread :
    (¬ ∃ users, initUserManager (content blankFile) = some users ∧ LoadedFrom blankFile users) ∧
    recordOf [.record openRecord] [117] = some openRecord ∧ openRecord.password ≠ [49] ∧
    atoi openRecord.uid = 1 ∧
    tryLogUser (content [.record openRecord]) [117] [] [49] = some (some 0) := by
  have missing : (initUserManager (content blankFile)).map (· 1) = some none := by
    decide +kernel
  refine ⟨?_, rfl, by decide, by decide, by decide +kernel⟩
  rintro ⟨users, result, loaded, _⟩
  rw [result] at missing
  have present := (loaded 1 userRecord.user).mpr
    ⟨userRecord, mem_cons_of_mem _ mem_cons_self, by decide, rfl⟩
  exact absurd (present.symm.trans (Option.some.inj missing)) (Option.some_ne_none _)

end Balrog.ShadowFile
