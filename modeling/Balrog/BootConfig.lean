import Mathlib.Algebra.Group.Nat.Defs
import Mathlib.Data.List.Basic
import Mathlib.Data.List.GetD
import Mathlib.Data.List.TakeWhile

/-!
# The boot configuration

The boot loader reads two GUIDs from BALROG.CFG and leaves them in memory for the kernel.
`__config_value` copies the value of a key into a buffer of the caller, `str_to_uuid` reads the
buffer into a field of the configuration, and the kernel compares the fields with the GUIDs of its
partitions. Both keys use one buffer, which a missing key leaves as it is: without a line for
`raw_debug_guid` the root partition is opened as the raw log. And `str_to_uuid` writes the bytes
it has read before it finds that a value is unusable.

The value of a key is defined on the lines of the file, and which GUID a text names by
`uuid_to_str`. A file that cannot be opened is left out.
-/

namespace Balrog.BootConfig

/-- `BOOT_CONFIG_MAGIC`, the text `# 1980TA` -/
def bootConfigMagic : List UInt8 := [35, 32, 49, 57, 56, 48, 84, 65]

/-- `BOOT_GUID_TEXT_LEN` -/
def bootGuidTextLen : Nat := 37

/-- The keys `root_guid` and `raw_debug_guid`. -/
def rootKey : List UInt8 := [114, 111, 111, 116, 95, 103, 117, 105, 100]

@[inherit_doc rootKey] def rawDebugKey : List UInt8 :=
  [114, 97, 119, 95, 100, 101, 98, 117, 103, 95, 103, 117, 105, 100]

/-- `i + key_len + 1 <= size && text[i + key_len] == '='`, and the key is at `text + i`. -/
def keyAt (key text : List UInt8) : Bool :=
  key.length + 1 ≤ text.length ∧ text.getD key.length 0 = 61 ∧ text.take key.length = key

/-- The loop that copies a value: it ends with the line, the file or the buffer. -/
def valueAt (outSize : Nat) (text : List UInt8) : List UInt8 :=
  (text.takeWhile fun byte => byte ≠ 10 ∧ byte ≠ 13).take (outSize - 1)

/-- The loop of `__config_value` over the rest of the text, with whether a line starts there. -/
def findValue (key : List UInt8) (outSize : Nat) : Bool → List UInt8 → Option (List UInt8)
  | _, [] => none
  | lineStart, byte :: rest =>
    if lineStart ∧ keyAt key (byte :: rest) then
      some (valueAt outSize ((byte :: rest).drop (key.length + 1)))
    else findValue key outSize (byte = 10) rest

/-- `__config_value`: the buffer after the call. -/
def configValue (text key out : List UInt8) (outSize : Nat) : List UInt8 :=
  match findValue key outSize true text with
  | none => out
  | some value => value ++ 0 :: out.drop (value.length + 1)

/-- The sixteen bytes of a GUID. -/
abbrev Uuid := Vector UInt8 16

/-- `__gpt_uuid_order` -/
def gptUuidOrder : Fin 16 → Fin 16 :=
  fun index => #[3, 2, 1, 0, 5, 4, 7, 6, 8, 9, 10, 11, 12, 13, 14, 15].getD index.val 0

/-- `i == 4 || i == 6 || i == 8 || i == 10` -/
def dashBefore (index : Fin 16) : Bool := index = 4 ∨ index = 6 ∨ index = 8 ∨ index = 10

/-- `__uuid_hex_value` -/
def uuidHexValue (char : UInt8) : Option UInt8 :=
  if 48 ≤ char ∧ char ≤ 57 then some (char - 48)
  else if 97 ≤ char ∧ char ≤ 102 then some (char - 97 + 10)
  else if 65 ≤ char ∧ char ≤ 70 then some (char - 65 + 10)
  else none

/-- The loop of `str_to_uuid` over the bytes that are left, from position `t` of the text. -/
def uuidLoop (text : List UInt8) : List (Fin 16) → Nat → Uuid → Bool × Uuid
  | [], t, uuid => (text.getD t 0 = 0, uuid)
  | index :: rest, t, uuid =>
    if dashBefore index ∧ text.getD t 0 ≠ 45 then (false, uuid)
    else
      let t := if dashBefore index then t + 1 else t
      match uuidHexValue (text.getD t 0), uuidHexValue (text.getD (t + 1) 0) with
      | some high, some low =>
        uuidLoop text rest (t + 2)
          (uuid.set (gptUuidOrder index) (high <<< 4 ||| low) (gptUuidOrder index).isLt)
      | _, _ => (false, uuid)

/-- `str_to_uuid`: whether it returns 0, and the field. -/
def strToUuid (uuid : Uuid) (text : List UInt8) : Bool × Uuid :=
  uuidLoop text (List.finRange 16) 0 uuid

/-- What a field holds before the configuration has been read. -/
def zeroUuid : Uuid := Vector.replicate 16 0

/-- `boot_config_t` -/
structure Config where
  magic : List UInt8
  rootGuid : Uuid
  rawDebugGuid : Uuid

/-- What `efi_main` makes of the text of BALROG.CFG. -/
def readConfig (text : List UInt8) : Config :=
  if text.take bootConfigMagic.length = bootConfigMagic then
    let buffer := List.replicate bootGuidTextLen 0
    let buffer := configValue text rootKey buffer bootGuidTextLen
    let rootGuid := (strToUuid zeroUuid buffer).2
    let buffer := configValue text rawDebugKey buffer bootGuidTextLen
    let rawDebugGuid := (strToUuid zeroUuid buffer).2
    { magic := bootConfigMagic, rootGuid := rootGuid, rawDebugGuid := rawDebugGuid }
  else
    { magic := List.replicate bootConfigMagic.length 0, rootGuid := zeroUuid,
      rawDebugGuid := zeroUuid }

/-- A device of the kernel, with the GUID of its partition if it is one. -/
structure FsDevice where
  name : Nat
  guid : Option Uuid
deriving DecidableEq

/-- The devices that are mounted as root and opened as raw debug log. -/
structure Loaded where
  root : Option FsDevice
  rawDebug : Option FsDevice

/-- `__load_boot_config` -/
def loadBootConfig (config : Config) (devices : List FsDevice) : Loaded :=
  if config.magic ≠ bootConfigMagic then { root := none, rawDebug := none }
  else
    { root := devices.find? fun device => device.guid = some config.rootGuid
      rawDebug := devices.find? fun device => device.guid = some config.rawDebugGuid }

/-- The lines of a text, without the line feeds between them. -/
def lines : List UInt8 → List (List UInt8)
  | [] => [[]]
  | byte :: rest =>
    if byte = 10 then [] :: lines rest
    else (byte :: (lines rest).headD []) :: (lines rest).tail

/-- The value of a line, if it starts with the key and an equals sign. A carriage return ends it. -/
def lineValue (key line : List UInt8) : Option (List UInt8) :=
  if (key ++ [61]) <+: line then some ((line.drop (key.length + 1)).takeWhile (· ≠ 13)) else none

/-- The value of the first line that assigns to a key. -/
def valueOf (text key : List UInt8) : Option (List UInt8) := (lines text).findSome? (lineValue key)

/-- `__uuid_hex` -/
def uuidHex (digit : UInt8) : UInt8 :=
  [48, 49, 50, 51, 52, 53, 54, 55, 56, 57, 65, 66, 67, 68, 69, 70].getD digit.toNat 0

/-- What `uuid_to_str` writes for one byte. -/
def uuidPiece (uuid : Uuid) (index : Fin 16) : List UInt8 :=
  (if dashBefore index then [(45 : UInt8)] else []) ++
    [uuidHex (uuid[gptUuidOrder index] >>> 4), uuidHex (uuid[gptUuidOrder index] &&& 15)]

/-- `uuid_to_str` -/
def uuidToStr (uuid : Uuid) : List UInt8 := (List.finRange 16).flatMap (uuidPiece uuid)

/-- A hexadecimal letter as a capital; other characters are left alone. -/
def upper (char : UInt8) : UInt8 := if 97 ≤ char ∧ char ≤ 102 then char - 32 else char

/-- A text names a GUID: it is the text of the GUID in upper or lower case. -/
def Names (value : List UInt8) (uuid : Uuid) : Prop := value.map upper = uuidToStr uuid

/-- Every pair of digits in front of the first character that the text of a GUID cannot have at its
place is `00`: what `str_to_uuid` writes before it finds that a text is unusable is zero. -/
def LeadingZeros (text : List UInt8) : List (Fin 16) → Nat → Prop
  | [], _ => True
  | index :: rest, t =>
    let digits := if dashBefore index then t + 1 else t
    (dashBefore index → text.getD t 0 = 45) → uuidHexValue (text.getD digits 0) ≠ none →
      uuidHexValue (text.getD (digits + 1) 0) ≠ none →
      text.getD digits 0 = 48 ∧ text.getD (digits + 1) 0 = 48 ∧ LeadingZeros text rest (digits + 2)

@[inherit_doc LeadingZeros] def OnlyZeros (text : List UInt8) : Prop :=
  LeadingZeros text (List.finRange 16) 0

/-- A field that holds the GUID its key names in the text, and zeros where it names none. -/
structure SetFrom (text key : List UInt8) (field : Uuid) : Prop where
  named : ∀ value uuid, valueOf text key = some value → Names value uuid → field = uuid
  unnamed : (∀ value uuid, valueOf text key = some value → ¬ Names value uuid) → field = zeroUuid

/-- When both fields are set as they should be. In a file that begins with the magic, a value that
does not name a GUID has only zeros in front of its first unusable character, of the 36 characters
that the buffer keeps; without a value for `raw_debug_guid` the value for `root_guid` has, if there
is one. In another file no value names a GUID other than zero. -/
structure Clear (text : List UInt8) : Prop where
  root : bootConfigMagic <+: text → ∀ value, valueOf text rootKey = some value →
    (∃ uuid, Names value uuid) ∨ OnlyZeros (value.take 36)
  rawDebug : bootConfigMagic <+: text → ∀ value, valueOf text rawDebugKey = some value →
    (∃ uuid, Names value uuid) ∨ OnlyZeros (value.take 36)
  missing : bootConfigMagic <+: text → valueOf text rawDebugKey = none →
    ∀ value, valueOf text rootKey = some value → OnlyZeros (value.take 36)
  other : ¬ bootConfigMagic <+: text → ∀ key ∈ [rootKey, rawDebugKey], ∀ value uuid,
    valueOf text key = some value → Names value uuid → uuid = zeroUuid

section Lines

variable {key : List UInt8} {outSize : Nat}

theorem lines_head (text : List UInt8) : (lines text).headD [] = text.takeWhile (· ≠ 10) := by
  induction text with
  | nil => rfl
  | cons byte rest ih =>
    by_cases newline : byte = 10
    · simp [lines, newline]
    · rw [lines, if_neg newline, List.takeWhile_cons_of_pos (by simp [newline]),
        ← ih]
      rfl

/-- The first line is what stands before the first line feed. -/
theorem lines_cons (text : List UInt8) :
    lines text = text.takeWhile (· ≠ 10) :: (lines text).tail := by
  rw [← lines_head]
  cases text with
  | nil => rfl
  | cons byte rest =>
    rw [lines]
    split <;> rfl

/-- The comparison with the key and its equals sign is a test for a leading piece. -/
theorem keyAt_iff (key text : List UInt8) : keyAt key text = true ↔ (key ++ [61]) <+: text := by
  simp only [keyAt, decide_eq_true_eq]
  constructor
  · rintro ⟨long, equals, same⟩
    refine ⟨text.drop (key.length + 1), ?_⟩
    have inside : key.length < text.length := long
    rw [List.getD_eq_getElem?_getD, List.getElem?_eq_getElem inside, Option.getD_some] at equals
    have parts := List.take_append_drop key.length text
    rw [same, List.drop_eq_getElem_cons inside, equals] at parts
    rw [List.append_assoc]
    exact parts
  · rintro ⟨rest, rfl⟩
    simp

/-- What the first line says about a key depends on the bytes up to the line feed only. -/
theorem lineValue_first (noNewline : 10 ∉ key) (text : List UInt8) :
    lineValue key (text.takeWhile (· ≠ 10)) =
      if keyAt key text then
        some ((text.drop (key.length + 1)).takeWhile fun byte => byte ≠ 10 ∧ byte ≠ 13)
      else none := by
  have plain : ∀ byte ∈ key ++ [61], decide (byte ≠ 10) = true := by
    intro byte member
    rcases List.mem_append.mp member with inKey | equals
    · exact decide_eq_true fun same => noNewline (same ▸ inKey)
    · rw [List.mem_singleton.mp equals]
      decide
  by_cases found : keyAt key text
  · rw [if_pos found]
    obtain ⟨rest, rfl⟩ := (keyAt_iff key text).mp found
    have skip (tail : List UInt8) : (key ++ [61] ++ tail).drop (key.length + 1) = tail := by
      rw [List.drop_left' (by simp)]
    rw [List.takeWhile_append_of_pos plain, lineValue, if_pos (List.prefix_append _ _), skip, skip,
      List.takeWhile_takeWhile]
    simp [and_comm]
  · rw [if_neg found, lineValue, if_neg]
    intro inLine
    exact found ((keyAt_iff key text).mpr (inLine.trans (List.takeWhile_prefix _)))

/-- The loop finds the value of the first line with the key, from a line start or from within the
first line. -/
theorem findValue_lines (noNewline : 10 ∉ key) (text : List UInt8) :
    findValue key outSize true text =
      ((lines text).findSome? (lineValue key)).map (·.take (outSize - 1)) ∧
    findValue key outSize false text =
      ((lines text).tail.findSome? (lineValue key)).map (·.take (outSize - 1)) := by
  induction text with
  | nil => simp [findValue, lines, lineValue]
  | cons byte rest ih =>
    have others : findValue key outSize (byte = 10) rest =
        ((lines (byte :: rest)).tail.findSome? (lineValue key)).map (·.take (outSize - 1)) := by
      by_cases newline : byte = 10
      · rw [lines, if_pos newline, decide_eq_true newline]
        exact ih.1
      · rw [lines, if_neg newline, decide_eq_false newline]
        exact ih.2
    constructor
    · rw [lines_cons, List.findSome?_cons, lineValue_first noNewline, findValue]
      by_cases found : keyAt key (byte :: rest)
      · simp [found, valueAt]
      · simp only [found]
        exact others
    · rw [findValue, if_neg (by simp)]
      exact others

/-- The loop over the text finds the value of the first line that assigns to the key. -/
theorem configValue_eq (noNewline : 10 ∉ key) (text out : List UInt8) :
    configValue text key out outSize =
      match valueOf text key with
      | none => out
      | some value =>
        value.take (outSize - 1) ++ 0 :: out.drop ((value.take (outSize - 1)).length + 1) := by
  rw [configValue, (findValue_lines noNewline text).1, valueOf]
  cases (lines text).findSome? (lineValue key) with
  | none => rfl
  | some value => rfl

end Lines

variable {char digit : UInt8} {uuid : Uuid}

section Texts

variable {text : List UInt8} {t : Nat}

theorem forall_byte {fact : UInt8 → Prop} (codes : ∀ code < 256, fact (UInt8.ofNat code))
    (byte : UInt8) : fact byte := by
  have inCodes := codes byte.toNat byte.toNat_lt
  rw [UInt8.ofNat_toNat] at inCodes
  exact inCodes

theorem upper_dash : ∀ char, upper char = 45 → char = 45 := forall_byte (by decide +kernel)

/-- The two halves of a byte, put together again. -/
theorem join_halves : ∀ byte : UInt8, (byte >>> 4) <<< 4 ||| (byte &&& 15) = byte :=
  forall_byte (by decide +kernel)

theorem halves_small : ∀ byte : UInt8, (byte >>> 4).toNat < 16 ∧ (byte &&& 15).toNat < 16 :=
  forall_byte (by decide +kernel)

theorem hexValue_case : ∀ char, uuidHexValue (upper char) = uuidHexValue char :=
  forall_byte (by decide +kernel)

/-- A digit is read as its value, in both cases. -/
theorem hexValue_upper (small : digit.toNat < 16) (same : upper char = uuidHex digit) :
    uuidHexValue char = some digit := by
  have digits : ∀ code < 16,
      uuidHexValue (uuidHex (UInt8.ofNat code)) = some (UInt8.ofNat code) := by
    decide +kernel
  have read := digits digit.toNat small
  rw [UInt8.ofNat_toNat, ← same, hexValue_case] at read
  exact read

variable {rest value : List UInt8}

theorem drop_cons (at' : text.drop t = char :: rest) :
    text.getD t 0 = char ∧ text.drop (t + 1) = rest := by
  constructor
  · rw [List.getD_eq_getElem?_getD, ← Nat.add_zero t, ← List.getElem?_drop, at']
    rfl
  · rw [← List.tail_drop, at', List.tail_cons]

/-- One round of the loop reads a byte that is spelled as it should be. -/
theorem uuidLoop_cons (uuid : Uuid) (index : Fin 16) (indices : List (Fin 16)) (field : Uuid)
    (at' : text.drop t = value ++ rest) (named : value.map upper = uuidPiece uuid index) :
    uuidLoop text (index :: indices) t field =
      uuidLoop text indices (t + value.length) (field.set (gptUuidOrder index)
        uuid[gptUuidOrder index] (gptUuidOrder index).isLt) := by
  have small := halves_small uuid[gptUuidOrder index]
  have joined := join_halves uuid[gptUuidOrder index]
  rw [uuidPiece] at named
  by_cases dash : dashBefore index = true
  · rw [if_pos dash] at named
    obtain ⟨char, high, low, rfl⟩ : ∃ char high low, value = [char, high, low] :=
      List.length_eq_three.mp (by rw [← List.length_map upper, named]; rfl)
    simp only [List.map_cons, List.map_nil, List.singleton_append, List.cons.injEq] at named
    obtain ⟨isDash, isHigh, isLow, _⟩ := named
    obtain ⟨first, at'⟩ := drop_cons at'
    obtain ⟨second, at'⟩ := drop_cons at'
    obtain ⟨third, _⟩ := drop_cons at'
    rw [uuidLoop, first, upper_dash char isDash, if_neg (by simp)]
    simp only [dash, if_true, second, third, hexValue_upper small.1 isHigh,
      hexValue_upper small.2 isLow, joined]
    rfl
  · rw [if_neg dash] at named
    obtain ⟨high, low, rfl⟩ : ∃ high low, value = [high, low] :=
      List.length_eq_two.mp (by rw [← List.length_map upper, named]; rfl)
    simp only [List.map_cons, List.map_nil, List.nil_append, List.cons.injEq] at named
    obtain ⟨isHigh, isLow, _⟩ := named
    obtain ⟨first, at'⟩ := drop_cons at'
    obtain ⟨second, _⟩ := drop_cons at'
    rw [uuidLoop, if_neg (by simp [dash])]
    simp only [dash, Bool.false_eq_true, if_false, first, second,
      hexValue_upper small.1 isHigh, hexValue_upper small.2 isLow, joined]
    rfl

/-- The bytes that a text names are written one after another. -/
theorem uuidLoop_named (uuid : Uuid) (indices : List (Fin 16)) (t : Nat) (field : Uuid)
    (value rest : List UInt8) (at' : text.drop t = value ++ 0 :: rest)
    (named : value.map upper = indices.flatMap (uuidPiece uuid)) :
    uuidLoop text indices t field = (true, indices.foldl (fun field index =>
      field.set (gptUuidOrder index) uuid[gptUuidOrder index] (gptUuidOrder index).isLt)
        field) := by
  induction indices generalizing t field value with
  | nil =>
    rw [List.flatMap_nil, List.map_eq_nil_iff] at named
    subst named
    rw [uuidLoop, (drop_cons at').1]
    rfl
  | cons index indices ih =>
    rw [List.flatMap_cons] at named
    obtain ⟨piece, others, rfl, isPiece, areOthers⟩ := List.map_eq_append_iff.mp named
    rw [List.append_assoc] at at'
    rw [uuidLoop_cons uuid index indices field at' isPiece]
    refine ih (t + piece.length) _ others ?_ areOthers
    rw [← List.drop_drop, at', List.drop_left]

/-- Bytes that are written to their places are there, and those that are there already stay. -/
theorem foldl_set (uuid : Uuid) (indices : List (Fin 16)) (field : Uuid) (place : Fin 16)
    (known : place ∈ indices.map gptUuidOrder ∨ field[place] = uuid[place]) :
    (indices.foldl (fun field index => field.set (gptUuidOrder index)
      uuid[gptUuidOrder index] (gptUuidOrder index).isLt) field)[place] = uuid[place] := by
  induction indices generalizing field with
  | nil => exact known.resolve_left (List.not_mem_nil)
  | cons index indices ih =>
    rw [List.foldl_cons]
    apply ih
    by_cases here : gptUuidOrder index = place
    · subst here
      exact .inr (by simp)
    · rw [List.map_cons, List.mem_cons] at known
      have kept : (field.set (gptUuidOrder index) uuid[gptUuidOrder index]
          (gptUuidOrder index).isLt)[place] = field[place] :=
        Vector.getElem_set_ne _ _ fun same => here (Fin.ext same)
      rw [kept]
      exact known.imp_left fun member => member.resolve_left fun same => here same.symm

/-- A text that names a GUID is read as that GUID. -/
theorem strToUuid_named (named : Names value uuid) (field : Uuid) :
    strToUuid field (value ++ 0 :: rest) = (true, uuid) := by
  rw [strToUuid, uuidLoop_named uuid _ 0 field value rest rfl named]
  refine Prod.ext rfl (Vector.ext fun place below => ?_)
  have all : ∀ place, place ∈ (List.finRange 16).map gptUuidOrder := by decide
  exact foldl_set uuid (List.finRange 16) field ⟨place, below⟩ (.inl (all _))

/-- The loop writes only to the places of the bytes that are left. -/
theorem uuidLoop_kept {place : Fin 16} {indices : List (Fin 16)}
    (absent : place ∉ indices.map gptUuidOrder) (t : Nat) (field : Uuid) :
    (uuidLoop text indices t field).2[place] = field[place] := by
  induction indices generalizing t field with
  | nil => rfl
  | cons index indices ih =>
    rw [List.map_cons, List.mem_cons, not_or] at absent
    rw [uuidLoop]
    split
    · rfl
    · simp only
      split
      · rw [ih absent.2]
        exact Vector.getElem_set_ne _ _ fun same => absent.1 (Fin.ext same.symm)
      · rfl

/-- A byte is zero exactly if both of its digits are. -/
theorem digits_zero {high low : UInt8} {first second : UInt8}
    (isHigh : uuidHexValue first = some high) (isLow : uuidHexValue second = some low) :
    high <<< 4 ||| low = 0 ↔ first = 48 ∧ second = 48 := by
  have small : ∀ char, ∀ digit ∈ uuidHexValue char, digit.toNat < 16 ∧ (digit = 0 ↔ char = 48) :=
    forall_byte (by decide +kernel)
  have halves : ∀ high < 16, ∀ low < 16,
      (UInt8.ofNat high <<< 4 ||| UInt8.ofNat low = 0 ↔
        UInt8.ofNat high = 0 ∧ UInt8.ofNat low = 0) := by
    decide +kernel
  obtain ⟨highSmall, highZero⟩ := small first high isHigh
  obtain ⟨lowSmall, lowZero⟩ := small second low isLow
  have both := halves high.toNat highSmall low.toNat lowSmall
  rw [UInt8.ofNat_toNat, UInt8.ofNat_toNat] at both
  rw [both, highZero, lowZero]

/-- A field of zeros stays so exactly if the text has only zeros in front of what is unusable. A
byte that is not zero is not written again, as the places of the bytes differ. -/
theorem uuidLoop_zero {indices : List (Fin 16)} (apart : (indices.map gptUuidOrder).Nodup) (t : Nat) :
    (uuidLoop text indices t zeroUuid).2 = zeroUuid ↔ LeadingZeros text indices t := by
  induction indices generalizing t with
  | nil => exact ⟨fun _ => trivial, fun _ => rfl⟩
  | cons index indices ih =>
    rw [List.map_cons, List.nodup_cons] at apart
    rw [uuidLoop, LeadingZeros]
    by_cases noDash : dashBefore index = true ∧ text.getD t 0 ≠ 45
    · rw [if_pos noDash]
      exact ⟨fun _ dash => absurd (dash noDash.1) noDash.2, fun _ => rfl⟩
    have dash : dashBefore index = true → text.getD t 0 = 45 :=
      fun before => not_not.mp fun other => noDash ⟨before, other⟩
    rw [if_neg noDash]
    simp only
    generalize (if dashBefore index = true then t + 1 else t) = digits
    split
    · rename_i high low isHigh isLow
      have zero := digits_zero isHigh isLow
      simp only [isHigh, isLow, ne_eq, reduceCtorEq, not_false_eq_true, true_implies]
      by_cases isZero : high <<< 4 ||| low = 0
      · obtain ⟨first, second⟩ := zero.mp isZero
        have same : zeroUuid.set (gptUuidOrder index) (high <<< 4 ||| low)
            (gptUuidOrder index).isLt = zeroUuid := by
          rw [isZero]
          refine Vector.ext fun place below => ?_
          simp [zeroUuid]
        rw [same, ih apart.2]
        exact ⟨fun later _ => ⟨first, second, later⟩, fun all => (all dash).2.2⟩
      · refine ⟨fun same => absurd ?_ isZero, fun all => absurd (zero.mpr ?_) isZero⟩
        · have written := @uuidLoop_kept text _ _ apart.1 (digits + 2)
            (zeroUuid.set (gptUuidOrder index) (high <<< 4 ||| low) (gptUuidOrder index).isLt)
          rw [same] at written
          simpa [zeroUuid] using written.symm
        · exact ⟨(all dash).1, (all dash).2.1⟩
    · rename_i unusable
      refine ⟨fun _ _ isHigh isLow => ?_, fun _ => rfl⟩
      obtain ⟨high, isHigh⟩ := Option.ne_none_iff_exists'.mp isHigh
      obtain ⟨low, isLow⟩ := Option.ne_none_iff_exists'.mp isLow
      exact absurd isLow (unusable high low isHigh)

/-- What stands behind the zero at the end of a text is not read. -/
theorem uuidLoop_end (indices : List (Fin 16)) (field : Uuid) (inside : t ≤ value.length) :
    uuidLoop (value ++ 0 :: rest) indices t field = uuidLoop value indices t field := by
  have same : ∀ t ≤ value.length, (value ++ 0 :: rest).getD t 0 = value.getD t 0 := by
    intro t inside
    rcases Nat.lt_or_eq_of_le inside with below | rfl
    · rw [List.getD_append _ _ _ _ below]
    · rw [List.getD_append_right _ _ _ _ (Nat.le_refl _), Nat.sub_self, List.getD_cons_zero,
        List.getD_eq_default _ _ (Nat.le_refl _)]
  have behind : ∀ t, value.length ≤ t → value.getD t 0 = 0 := fun t => List.getD_eq_default _ _
  induction indices generalizing t field with
  | nil => rw [uuidLoop, uuidLoop, same t inside]
  | cons index indices ih =>
    rw [uuidLoop, uuidLoop, same t inside]
    by_cases noDash : dashBefore index = true ∧ value.getD t 0 ≠ 45
    · rw [if_pos noDash, if_pos noDash]
    rw [if_neg noDash, if_neg noDash]
    have digits : (if dashBefore index = true then t + 1 else t) ≤ value.length := by
      split
      · next before =>
        have isDash : value.getD t 0 = 45 := not_not.mp fun other => noDash ⟨before, other⟩
        by_contra outside
        rw [behind t (by omega)] at isDash
        exact absurd isDash (by decide)
      · exact inside
    simp only
    generalize (if dashBefore index = true then t + 1 else t) = digit at digits
    rw [same digit digits]
    rcases Nat.lt_or_eq_of_le digits with below | isEnd
    · rw [same (digit + 1) below]
      split
      · next high low _ isLow =>
        refine ih _ (Nat.succ_le_of_lt (Nat.lt_of_le_of_ne below fun isEnd => ?_))
        rw [behind _ (Nat.le_of_eq isEnd.symm)] at isLow
        exact absurd isLow (show uuidHexValue 0 ≠ some low from nofun)
      · rfl
    · rw [behind digit (Nat.le_of_eq isEnd.symm)]
      rfl

/-- A field of zeros stays so exactly if the text that is read has only zeros in front of its first
unusable character. -/
theorem strToUuid_zero (value rest : List UInt8) :
    (strToUuid zeroUuid (value ++ 0 :: rest)).2 = zeroUuid ↔ OnlyZeros value := by
  rw [strToUuid, uuidLoop_end _ _ (Nat.zero_le _)]
  exact uuidLoop_zero (by decide) 0

/-- A text that names a GUID has 36 characters. -/
theorem names_length (named : Names value uuid) : value.length = 36 := by
  have same := congrArg List.length named
  rw [List.length_map] at same
  exact same

end Texts

section Fields

variable {text key out : List UInt8}

/-- A field is set from its key exactly if an unusable value or, without a value, the text that is
in the buffer already leaves it zero. -/
theorem field_set {front back : List UInt8} (noNewline : 10 ∉ key) (isOut : out = front ++ 0 :: back) :
    SetFrom text key (strToUuid zeroUuid (configValue text key out bootGuidTextLen)).2 ↔
      (∀ value, valueOf text key = some value →
        (∃ uuid, Names value uuid) ∨ OnlyZeros (value.take 36)) ∧
      (valueOf text key = none → OnlyZeros front) := by
  rw [configValue_eq noNewline, isOut]
  constructor
  · intro set
    refine ⟨fun value isValue => ?_, fun missing => ?_⟩
    · by_cases named : ∃ uuid, Names value uuid
      · exact .inl named
      · have zero := set.unnamed fun other uuid isOther isNamed =>
          named ⟨uuid, Option.some.inj (isOther.symm.trans isValue) ▸ isNamed⟩
        rw [isValue] at zero
        exact .inr ((strToUuid_zero _ _).mp zero)
    · have zero := set.unnamed fun other uuid isOther =>
        absurd (missing.symm.trans isOther) (Option.some_ne_none other).symm
      rw [missing] at zero
      exact (strToUuid_zero _ _).mp zero
  · rintro ⟨usable, missing⟩
    constructor
    · intro value uuid isValue named
      rw [isValue]
      have whole : value.take (bootGuidTextLen - 1) = value :=
        List.take_of_length_le (names_length named).le
      simp only [whole]
      rw [strToUuid_named named]
    · intro unnamed
      cases isValue : valueOf text key with
      | none => exact (strToUuid_zero _ _).mpr (missing isValue)
      | some value =>
        have other := (usable value isValue).resolve_left
          fun ⟨uuid, named⟩ => unnamed value uuid isValue named
        exact (strToUuid_zero _ _).mpr other

/-- A field that is left zero is set from its key exactly if no value names another GUID. -/
theorem field_unset : SetFrom text key zeroUuid ↔
    ∀ value uuid, valueOf text key = some value → Names value uuid → uuid = zeroUuid := by
  constructor
  · exact fun set value uuid isValue named => (set.named value uuid isValue named).symm
  · exact fun others => ⟨fun value uuid isValue named => (others value uuid isValue named).symm,
      fun _ => rfl⟩

/-- The text in the buffer after the first key: its value, or nothing. -/
theorem buffer_root (text : List UInt8) : ∃ back,
    configValue text rootKey (List.replicate bootGuidTextLen 0) bootGuidTextLen =
      ((valueOf text rootKey).getD []).take 36 ++ 0 :: back := by
  rw [configValue_eq (by decide)]
  cases valueOf text rootKey with
  | none => exact ⟨List.replicate 36 0, rfl⟩
  | some value => exact ⟨_, rfl⟩

/-- The kernel opens a partition that the value names, if no partition has a GUID of zeros. -/
theorem rawDebug_named {config : Config} {devices : List FsDevice} {device : FsDevice}
    (set : SetFrom text key config.rawDebugGuid)
    (nonzero : ∀ device ∈ devices, device.guid ≠ some zeroUuid)
    (opened : (loadBootConfig config devices).rawDebug = some device) :
    ∃ value uuid, valueOf text key = some value ∧ Names value uuid ∧ device.guid = some uuid := by
  rw [loadBootConfig] at opened
  split at opened
  · contradiction
  have guid : device.guid = some config.rawDebugGuid := by
    have found := List.find?_some opened
    exact of_decide_eq_true found
  by_contra other
  push Not at other
  have zero := set.unnamed fun value uuid isValue named =>
    other value uuid isValue named (by rw [guid, set.named value uuid isValue named])
  exact nonzero device (List.mem_of_find?_eq_some opened) (guid.trans (congrArg some zero))

end Fields

/-- Both fields are set from the text exactly where it is clear about them. -/
theorem fields_set_iff (text : List UInt8) :
    (SetFrom text rootKey (readConfig text).rootGuid ∧
      SetFrom text rawDebugKey (readConfig text).rawDebugGuid) ↔ Clear text := by
  by_cases magic : bootConfigMagic <+: text
  · rw [readConfig, if_pos (List.prefix_iff_eq_take.mp magic).symm]
    obtain ⟨back, isBuffer⟩ := buffer_root text
    simp only
    have none' : OnlyZeros [] := (strToUuid_zero [] []).mp (by decide +kernel)
    have first := @field_set text rootKey (List.replicate bootGuidTextLen 0) []
      (List.replicate 36 0) (by decide) rfl
    rw [first, field_set (by decide) isBuffer]
    constructor
    · rintro ⟨⟨root, _⟩, rawDebug, missing⟩
      refine ⟨fun _ => root, fun _ => rawDebug, fun _ isMissing value isValue => ?_,
        fun other => absurd magic other⟩
      have zeros := missing isMissing
      rw [isValue] at zeros
      exact zeros
    · intro clear
      refine ⟨⟨clear.root magic, fun _ => none'⟩, clear.rawDebug magic, fun isMissing => ?_⟩
      cases isRoot : valueOf text rootKey with
      | none => exact none'
      | some value => exact clear.missing magic isMissing value isRoot
  · have cut : text.take bootConfigMagic.length ≠ bootConfigMagic :=
      fun same => magic (List.prefix_iff_eq_take.mpr same.symm)
    rw [readConfig, if_neg cut, field_unset, field_unset]
    constructor
    · rintro ⟨root, rawDebug⟩
      refine ⟨fun is => absurd is magic, fun is => absurd is magic, fun is => absurd is magic,
        fun _ => ?_⟩
      simpa using ⟨root, rawDebug⟩
    · intro clear
      exact ⟨clear.other magic rootKey (by simp), clear.other magic rawDebugKey (by simp)⟩

/-- A GUID whose text begins with a byte. -/
def someUuid (byte : UInt8) : Uuid := Vector.replicate 16 byte

/-- The lines of a configuration for a root partition and, if there is one, a raw debug log. -/
def configText (rawDebug : List UInt8) : List UInt8 :=
  bootConfigMagic ++ [10] ++ rootKey ++ [61] ++ uuidToStr (someUuid 1) ++ [10] ++ rawDebug

end Balrog.BootConfig
