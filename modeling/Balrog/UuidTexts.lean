import Balrog.BootConfig
import Mathlib.Data.List.Forall2

/-!
# The texts of GUIDs

`str_to_uuid` reads exactly the texts that `uuid_to_str` writes, in either case. The two loops go
through the bytes in the same order, and each text is cut into what one round writes or reads.

A text has no zero byte; in memory a zero follows it.
-/

namespace Balrog.UuidTexts

open BootConfig

/-- The characters of a GUID text: dashes at four places, and hexadecimal digits of either case. -/
def Fits (dash : Bool) (char : UInt8) : Prop :=
  if dash then char = 45 else uuidHexValue char ≠ none

/-- A text of 36 characters with dashes at the four standard places. -/
def IsUuidText (text : List UInt8) : Prop :=
  List.Forall₂ Fits ((List.range 36).map fun place => decide (place ∈ [8, 13, 18, 23])) text

/-- The part of it that is read in one round. -/
def pieceShape (index : Fin 16) : List Bool :=
  (if dashBefore index then [true] else []) ++ [false, false]

variable {high low : UInt8} {index : Fin 16} {value text piece : List UInt8}

theorem isUuidText_iff :
    IsUuidText text ↔ List.Forall₂ Fits ((List.finRange 16).flatMap pieceShape) text := by
  have same : (List.range 36).map (fun place => decide (place ∈ [8, 13, 18, 23])) =
      (List.finRange 16).flatMap pieceShape := by decide
  rw [IsUuidText, same]

/-- A digit is written back in upper case. -/
theorem uuidHex_value (char : UInt8) : ∀ digit, uuidHexValue char = some digit →
    upper char = uuidHex digit ∧ digit.toNat < 16 := by
  have known : ∀ char : UInt8, (uuidHexValue char).all fun digit =>
      upper char = uuidHex digit ∧ digit.toNat < 16 := forall_byte (by decide +kernel)
  intro digit isDigit
  have holds := known char
  rw [isDigit] at holds
  simpa using holds

theorem halves_join (isHigh : high.toNat < 16) (isLow : low.toNat < 16) :
    (high <<< 4 ||| low) >>> 4 = high ∧ (high <<< 4 ||| low) &&& 15 = low := by
  have known : ∀ high < 16, ∀ low < 16,
      (UInt8.ofNat high <<< 4 ||| UInt8.ofNat low) >>> 4 = UInt8.ofNat high ∧
        (UInt8.ofNat high <<< 4 ||| UInt8.ofNat low) &&& 15 = UInt8.ofNat low := by
    decide +kernel
  have holds := known _ isHigh _ isLow
  rwa [UInt8.ofNat_toNat, UInt8.ofNat_toNat] at holds

/-- Two digits are what `uuid_to_str` writes for some byte. -/
theorem digits_name (isHigh : Fits false high) (isLow : Fits false low) :
    ∃ byte : UInt8, [upper high, upper low] = [uuidHex (byte >>> 4), uuidHex (byte &&& 15)] := by
  obtain ⟨first, isFirst⟩ := Option.ne_none_iff_exists'.mp isHigh
  obtain ⟨second, isSecond⟩ := Option.ne_none_iff_exists'.mp isLow
  obtain ⟨upperHigh, smallHigh⟩ := uuidHex_value high first isFirst
  obtain ⟨upperLow, smallLow⟩ := uuidHex_value low second isSecond
  obtain ⟨left, right⟩ := halves_join smallHigh smallLow
  exact ⟨first <<< 4 ||| second, by rw [left, right, upperHigh, upperLow]⟩

/-- The part of a text for one round is what `uuid_to_str` writes for some byte. -/
theorem piece_names (shape : List.Forall₂ Fits (pieceShape index) piece) :
    ∃ byte, piece.map upper = uuidPiece (Vector.replicate 16 byte) index := by
  unfold pieceShape at shape
  simp only [uuidPiece, Fin.getElem_fin, Vector.getElem_replicate]
  split at shape
  · next dash =>
    simp only [List.singleton_append, List.forall₂_cons_left_iff, List.forall₂_nil_left_iff]
      at shape
    obtain ⟨char, _, isDash, ⟨high, _, isHigh, ⟨low, _, isLow, rfl, rfl⟩, rfl⟩, rfl⟩ := shape
    obtain ⟨byte, named⟩ := digits_name isHigh isLow
    obtain rfl : char = 45 := isDash
    refine ⟨byte, ?_⟩
    rw [if_pos dash, List.map_cons, List.map_cons, List.map_cons, List.map_nil, named]
    rfl
  · next noDash =>
    simp only [List.nil_append, List.forall₂_cons_left_iff, List.forall₂_nil_left_iff] at shape
    obtain ⟨high, _, isHigh, ⟨low, _, isLow, rfl, rfl⟩, rfl⟩ := shape
    obtain ⟨byte, named⟩ := digits_name isHigh isLow
    refine ⟨byte, ?_⟩
    rw [if_neg noDash, List.map_cons, List.map_cons, List.map_nil, named]
    rfl

theorem shape_append {first second : List Bool} {value : List UInt8}
    (shape : List.Forall₂ Fits (first ++ second) value) :
    ∃ piece rest, value = piece ++ rest ∧ List.Forall₂ Fits first piece ∧
      List.Forall₂ Fits second rest := by
  induction first generalizing value with
  | nil => exact ⟨[], value, rfl, .nil, shape⟩
  | cons dash first ih =>
    obtain ⟨char, others, fits, rest, rfl⟩ := List.forall₂_cons_left_iff.mp shape
    obtain ⟨piece, behind, rfl, isPiece, isRest⟩ := ih rest
    exact ⟨char :: piece, behind, rfl, .cons fits isPiece, isRest⟩

/-- So is a whole text: no byte is written twice. -/
theorem names_of_shape (indices : List (Fin 16)) (distinct : (indices.map gptUuidOrder).Nodup)
    (shape : List.Forall₂ Fits (indices.flatMap pieceShape) value) :
    ∃ uuid, value.map upper = indices.flatMap (uuidPiece uuid) := by
  induction indices generalizing value with
  | nil =>
    obtain rfl := List.forall₂_nil_left_iff.mp shape
    exact ⟨zeroUuid, rfl⟩
  | cons index indices ih =>
    rw [List.map_cons, List.nodup_cons] at distinct
    rw [List.flatMap_cons] at shape
    obtain ⟨piece, rest, rfl, isPiece, isRest⟩ := shape_append shape
    obtain ⟨uuid, named⟩ := ih distinct.2 isRest
    obtain ⟨byte, isByte⟩ := piece_names isPiece
    refine ⟨uuid.set (gptUuidOrder index) byte (gptUuidOrder index).isLt, ?_⟩
    rw [List.map_append, List.flatMap_cons, isByte, named]
    congr 1
    · simp [uuidPiece]
    · refine List.flatMap_congr fun other member => ?_
      have apart : (gptUuidOrder index).val ≠ (gptUuidOrder other).val := fun same =>
        distinct.1 (Fin.ext same ▸ List.mem_map_of_mem member)
      simp only [uuidPiece, Fin.getElem_fin, Vector.getElem_set_ne _ _ apart]

theorem strToUuid_shaped {text rest : List UInt8} (shape : IsUuidText text) (field : Uuid) :
    ∃ uuid, Names text uuid ∧ strToUuid field (text ++ 0 :: rest) = (true, uuid) := by
  obtain ⟨uuid, named⟩ := names_of_shape _ (by decide) (isUuidText_iff.mp shape)
  exact ⟨uuid, named, strToUuid_named named field⟩

section Accepted

variable {rest : List UInt8} {t : Nat}

/-- Two digits that are read are in front of the zero. -/
theorem digits_read (here : text.drop t = value ++ 0 :: rest)
    (high : uuidHexValue (text.getD t 0) ≠ none) (low : uuidHexValue (text.getD (t + 1) 0) ≠ none) :
    ∃ first second others, value = first :: second :: others ∧ Fits false first ∧
      Fits false second := by
  have noDigit : uuidHexValue 0 = none := by decide
  match value with
  | [] =>
    rw [(drop_cons here).1] at high
    exact absurd noDigit high
  | [_] =>
    rw [(drop_cons (drop_cons here).2).1] at low
    exact absurd noDigit low
  | first :: second :: others =>
    obtain ⟨isFirst, behind⟩ := drop_cons here
    rw [isFirst] at high
    rw [(drop_cons behind).1] at low
    exact ⟨first, second, others, rfl, high, low⟩

/-- A round that goes on has read a piece. -/
theorem piece_read {indices : List (Fin 16)} {field : Uuid}
    (here : text.drop t = value ++ 0 :: rest)
    (accepted : (uuidLoop text (index :: indices) t field).1 = true) :
    ∃ piece others, value = piece ++ others ∧ List.Forall₂ Fits (pieceShape index) piece := by
  rw [uuidLoop] at accepted
  split at accepted
  · cases accepted
  · next noFailure =>
    by_cases dash : dashBefore index = true
    · have isDash : text.getD t 0 = 45 := by
        by_contra other
        exact noFailure ⟨dash, other⟩
      simp only [dash, if_true] at accepted
      cases value with
      | nil => exact absurd ((drop_cons here).1.symm.trans isDash) (by decide)
      | cons char value =>
        obtain ⟨isChar, behind⟩ := drop_cons here
        split at accepted
        · next high low =>
          obtain ⟨first, second, others, rfl, isFirst, isSecond⟩ := digits_read behind
            (high ▸ Option.some_ne_none _) (low ▸ Option.some_ne_none _)
          refine ⟨[char, first, second], others, rfl, ?_⟩
          rw [pieceShape, if_pos dash]
          exact .cons (isChar.symm.trans isDash) (.cons isFirst (.cons isSecond .nil))
        · cases accepted
    · simp only [dash] at accepted
      split at accepted
      · next high low =>
        obtain ⟨first, second, others, rfl, isFirst, isSecond⟩ := digits_read here
          (high ▸ Option.some_ne_none _) (low ▸ Option.some_ne_none _)
        refine ⟨[first, second], others, rfl, ?_⟩
        rw [pieceShape, if_neg dash]
        exact .cons isFirst (.cons isSecond .nil)
      · cases accepted

theorem shape_of_accepted (indices : List (Fin 16)) (field : Uuid) (noZero : 0 ∉ value)
    (here : text.drop t = value ++ 0 :: rest)
    (accepted : (uuidLoop text indices t field).1 = true) :
    List.Forall₂ Fits (indices.flatMap pieceShape) value := by
  induction indices generalizing t field value with
  | nil =>
    match value with
    | [] => exact .nil
    | char :: value =>
      rw [uuidLoop, (drop_cons here).1] at accepted
      exact absurd (of_decide_eq_true accepted ▸ List.mem_cons_self) noZero
  | cons index indices ih =>
    obtain ⟨piece, others, rfl, shape⟩ := piece_read here accepted
    obtain ⟨byte, named⟩ := piece_names shape
    rw [List.append_assoc] at here
    rw [uuidLoop_cons _ index indices field here named] at accepted
    rw [List.flatMap_cons]
    refine List.rel_append shape (ih _ (fun zero => noZero (List.mem_append_right _ zero)) ?_
      accepted)
    rw [← List.drop_drop, here, List.drop_left]

end Accepted

theorem upper_uuidToStr (uuid : Uuid) : Names (uuidToStr uuid) uuid := by
  have digit : ∀ byte : UInt8, upper (uuidHex byte) = uuidHex byte :=
    forall_byte (by decide +kernel)
  rw [Names, uuidToStr, List.map_flatMap]
  refine List.flatMap_congr fun index _ => ?_
  unfold uuidPiece
  split
  · simp [digit, show upper 45 = 45 by decide]
  · simp [digit]

/-- `str_to_uuid` reads what `uuid_to_str` writes, it accepts the GUID texts and no others, and
what it accepts is written back in upper case. -/
theorem uuid_texts :
    (∀ uuid field rest, strToUuid field (uuidToStr uuid ++ 0 :: rest) = (true, uuid)) ∧
    ∀ text, 0 ∉ text → ∀ field rest,
      ((strToUuid field (text ++ 0 :: rest)).1 = true ↔ IsUuidText text) ∧
      ((strToUuid field (text ++ 0 :: rest)).1 = true →
        uuidToStr (strToUuid field (text ++ 0 :: rest)).2 = text.map upper) := by
  refine ⟨fun uuid field rest => strToUuid_named (upper_uuidToStr uuid) field,
    fun text noZero field rest => ?_⟩
  have shaped : (strToUuid field (text ++ 0 :: rest)).1 = true → IsUuidText text :=
    fun accepted => isUuidText_iff.mpr (shape_of_accepted _ field noZero rfl accepted)
  refine ⟨⟨shaped, fun shape => ?_⟩, fun accepted => ?_⟩
  · obtain ⟨uuid, _, result⟩ := @strToUuid_shaped text rest shape field
    rw [result]
  · obtain ⟨uuid, named, result⟩ := @strToUuid_shaped text rest (shaped accepted) field
    rw [result]
    exact named.symm

theorem uuid_texts_zero :
    uuidToStr (strToUuid zeroUuid (uuidToStr zeroUuid ++ [0])).2 =
      (uuidToStr zeroUuid).map upper := by
  have noZero : 0 ∉ uuidToStr zeroUuid := by decide
  refine ((uuid_texts.2 _ noZero zeroUuid []).2 ?_)
  rw [uuid_texts.1]

end Balrog.UuidTexts
