import Mathlib.Data.Nat.Digits.Lemmas

/-!
# Numbers in formatted texts

The formatters of the kernel and of the C library share one function for all numbers,
`__int_to_string`, which gets them as `unsigned long`. A signed number above `INT_MAX` is meant to
be taken for a negative one, but `limits.h` has the largest `unsigned long` for `INT_MAX`: no number
is above it, and a negative one is printed as the `unsigned long` it was converted to.

A conversion is its base, whether it is signed and the type of its argument; the letter that `%x`
and `%b` put in front is not part of the number. The byte behind the first one in the buffer of the
caller is an argument: a negative zero leaves it in the text.
-/

namespace Balrog.NumberText

open List

/-- `chars` -/
def digitChar (digit : Nat) : Char := "0123456789abcdef".toList.getD digit '0'

/-- The loop that pushes digits to `buffer`, of 128 bytes. -/
def pushDigits (base : Nat) : Nat → Nat → List Char
  | 0, _ => []
  | room + 1, value =>
    if value = 0 then [] else digitChar (value % base) :: pushDigits base room (value / base)

/-- An `int` as the `unsigned long` it is converted to. -/
def ofInt (value : Int) : Nat := (value % 2 ^ 64).toNat

/-- `INT_MAX` -/
def intMax : Nat := 0xffffffffffffffff

/-- `__int_to_string` -/
def intToString (value base : Nat) (isSigned : Bool) (stale : Char) : List Char :=
  let negative := isSigned ∧ intMax < value
  let value := if negative then ofInt ((-(value : Int).bmod (2 ^ 32)).bmod (2 ^ 32)) else value
  if value = 0 then if negative then ['0', stale] else ['0']
  else (if negative then ['-'] else []) ++ (pushDigits base 128 value).reverse

/-- The conversions of `__ksprint` and, for `%d` of a `long`, of `printf`. -/
inductive Conversion where
  | d | l | u | x | b | printfD
deriving DecidableEq

/-- The base that a conversion passes. -/
def Conversion.base : Conversion → Nat
  | d | l | u | printfD => 10
  | x => 16
  | b => 2

/-- Whether a conversion prints a minus sign. -/
def Conversion.isSigned : Conversion → Bool
  | d | l | printfD => true
  | u | x | b => false

/-- The values of the type of the argument. -/
def Conversion.Argument : Conversion → Int → Prop
  | d, value => -2 ^ 31 ≤ value ∧ value < 2 ^ 31
  | l, value | printfD, value => -2 ^ 63 ≤ value ∧ value < 2 ^ 63
  | u, value | x, value | b, value => 0 ≤ value ∧ value < 2 ^ 64

/-- The text of a number. -/
def Conversion.text (conversion : Conversion) (value : Int) (stale : Char) : List Char :=
  intToString (ofInt value) conversion.base conversion.isSigned stale

/-- A text is read digit by digit. -/
def readDigits (base : Nat) (text : List Char) : Nat :=
  text.foldl (fun value char => value * base + "0123456789abcdef".toList.idxOf char) 0

/-- A text is read as a number, with a sign if there is one. -/
def readNumber (base : Nat) : List Char → Int
  | '-' :: text => -readDigits base text
  | text => readDigits base text

section Digits

variable {base : Nat}

/-- The loop ends before the buffer is full, with the digits of the value. -/
theorem pushDigits_eq (proper : 2 ≤ base) (room : Nat) {value : Nat} (fits : value < 2 ^ room) :
    pushDigits base room value = (base.digits value).map digitChar := by
  induction room generalizing value with
  | zero =>
    obtain rfl : value = 0 := by omega
    rw [pushDigits, Nat.digits_zero, map_nil]
  | succ room ih =>
    rw [pushDigits]
    split
    · next isZero => rw [isZero, Nat.digits_zero, map_nil]
    · next nonzero =>
      have smaller : value / base < 2 ^ room := by
        rw [Nat.pow_succ] at fits
        exact Nat.div_lt_of_lt_mul (lt_of_lt_of_le fits
          (by rw [Nat.mul_comm]; exact Nat.mul_le_mul_right _ proper))
      rw [ih smaller, Nat.digits_def' proper (Nat.pos_of_ne_zero nonzero), map_cons]

theorem digitChar_read : ∀ digit < 16,
    "0123456789abcdef".toList.idxOf (digitChar digit) = digit ∧ digitChar digit ≠ '-' := by
  decide

theorem readDigits_digits {digits : List Nat} (small : ∀ digit ∈ digits, digit < 16) :
    readDigits base (digits.map digitChar).reverse = Nat.ofDigits base digits := by
  induction digits with
  | nil => rfl
  | cons digit digits ih =>
    have rest := ih (forall_mem_cons.mp small).2
    have read := (digitChar_read digit (small digit mem_cons_self)).1
    rw [readDigits] at rest ⊢
    rw [map_cons, reverse_cons, foldl_append, rest, foldl_cons,
      foldl_nil, read, Nat.ofDigits_cons]
    ring

/-- The digits of a value are read as the value, and none of them is a sign. -/
theorem pushDigits_read (proper : 2 ≤ base ∧ base ≤ 16) {value : Nat} (fits : value < 2 ^ 128) :
    readDigits base (pushDigits base 128 value).reverse = value ∧
      '-' ∉ (pushDigits base 128 value).reverse := by
  have small : ∀ digit ∈ base.digits value, digit < 16 := fun digit member =>
    lt_of_lt_of_le (Nat.digits_lt_base proper.1 member) proper.2
  rw [pushDigits_eq proper.1 128 fits]
  refine ⟨by rw [readDigits_digits small, Nat.ofDigits_digits], fun sign => ?_⟩
  obtain ⟨digit, member, isSign⟩ := mem_map.mp (mem_reverse.mp sign)
  exact (digitChar_read digit (small digit member)).2 isSign

theorem readNumber_unsigned {text : List Char} (unsigned : '-' ∉ text) :
    readNumber base text = readDigits base text := by
  unfold readNumber
  split
  · exact absurd mem_cons_self unsigned
  · rfl

end Digits

theorem ofInt_lt (value : Int) : ofInt value < 2 ^ 64 := by
  unfold ofInt
  omega

/-- The text of a number is that of the `unsigned long` it is converted to: no sign is printed. -/
theorem text_read (conversion : Conversion) (value : Int) (stale : Char) :
    readNumber conversion.base (conversion.text value stale) = ofInt value := by
  have proper : 2 ≤ conversion.base ∧ conversion.base ≤ 16 := by cases conversion <;> decide
  have small := ofInt_lt value
  have positive : ¬ (conversion.isSigned = true ∧ intMax < ofInt value) := by
    unfold intMax
    omega
  unfold Conversion.text intToString
  obtain ⟨read, unsigned⟩ := @pushDigits_read _ proper (ofInt value) (by omega)
  simp only [if_neg positive]
  split
  · next isZero =>
    rw [readNumber_unsigned (by decide), isZero]
    simp [readDigits]
  · rw [nil_append, readNumber_unsigned unsigned, read]

/-- The text of a number is read as the number exactly if the number is not negative. -/
theorem number_read_back_iff (conversion : Conversion) (value : Int) (stale : Char)
    (argument : conversion.Argument value) :
    readNumber conversion.base (conversion.text value stale) = value ↔ 0 ≤ value := by
  have bounds : -2 ^ 63 ≤ value ∧ value < 2 ^ 64 := by
    cases conversion <;> simp only [Conversion.Argument] at argument <;> omega
  rw [text_read, ofInt]
  omega

/-- A `long` above the largest `int`. -/
theorem number_read_back_long :
    Conversion.l.text (2 ^ 31) 'a' = ['2', '1', '4', '7', '4', '8', '3', '6', '4', '8'] ∧
      readNumber 10 (Conversion.l.text (2 ^ 31) 'a') = 2 ^ 31 :=
  ⟨by decide +kernel, (number_read_back_iff .l (2 ^ 31) 'a' ⟨by decide, by decide⟩).mpr (by decide)⟩

/-- A negative `int` is printed without a sign, as a number close to 2 ^ 64. -/
theorem negative_misprinted :
    Conversion.d.Argument (-42) ∧
      readNumber 10 (Conversion.d.text (-42) ' ') = 18446744073709551574 :=
  ⟨⟨by decide, by decide⟩, by decide +kernel⟩

end Balrog.NumberText
