import Mathlib.Data.Nat.Digits.Defs
import NameResolution.Text.Number

/-!
# Numbers written and read

A number is written without leading zeros, by digits that are read as the same number, whatever
follows that is no digit.

* `Text.NoDigit`: a text does not begin with a digit.
* `Text.Digits`: characters and the values that they have as digits.
* `Text.leadingNumber?_toDigits`: the digits of a number are read as the number.
* `Text.unsigned?_toDigits`: so it is for a whole text.
-/

namespace NameResolution

namespace Text

/-! ## Digits -/

/-- The `text` does not begin with a digit. -/
def NoDigit (radix : Nat) (text : List Char) : Prop := ∀ c ∈ text.head?, digitValue? radix c = none

theorem noDigit_nil (radix : Nat) : NoDigit radix [] := fun _ member => nomatch member

theorem noDigit_cons {radix : Nat} {c : Char} {text : List Char} :
    NoDigit radix (c :: text) ↔ digitValue? radix c = none := by
  simp [NoDigit]

/-- What is no digit in a larger `radix` is none in a smaller one. -/
theorem NoDigit.of_le {radix less : Nat} {text : List Char} (other : NoDigit radix text)
    (smaller : less ≤ radix) : NoDigit less text := by
  intro c member
  have none := other c member
  simp only [digitValue?, Option.filter_eq_none_iff, decide_eq_true_eq] at none ⊢
  exact fun value same => fun below => none value same (Nat.lt_of_lt_of_le below smaller)

/-- The digit of a `value` is read as the value. -/
theorem digitValue?_digitChar {radix value : Nat} (small : value < radix) (most : radix ≤ 16) :
    digitValue? radix (Nat.digitChar value) = some value := by
  have all : ∀ value < 16, digitValue? 16 (Nat.digitChar value) = some value := by decide
  have read := all value (Nat.lt_of_lt_of_le small most)
  simp only [digitValue?, Option.filter_eq_some_iff] at read ⊢
  exact ⟨read.1, decide_eq_true small⟩

/-- The characters are `Digits` with these `values`. -/
def Digits (radix : Nat) (text : List Char) (values : List Nat) : Prop :=
  text.map (digitValue? radix) = values.map some

theorem Digits.length_eq {radix : Nat} {text : List Char} {values : List Nat}
    (digits : Digits radix text values) : text.length = values.length := by
  simpa using congrArg List.length digits

theorem digits_singleton {radix value : Nat} (small : value < radix) (most : radix ≤ 16) :
    Digits radix [Nat.digitChar value] [value] := by
  simp [Digits, digitValue?_digitChar small most]

theorem Digits.append {radix : Nat} {text more : List Char} {values others : List Nat}
    (digits : Digits radix text values) (after : Digits radix more others) :
    Digits radix (text ++ more) (values ++ others) := by
  rw [Digits, List.map_append, List.map_append, digits, after]

/-- All `digits` that a `text` begins with are found. -/
theorem leadingDigits_append {radix : Nat} {text rest : List Char} {values : List Nat}
    (digits : Digits radix text values) (ends : NoDigit radix rest) :
    leadingDigits radix (text ++ rest) = (values, rest) := by
  induction text generalizing values with
  | nil =>
    obtain rfl := List.map_eq_nil_iff.mp digits.symm
    cases rest with
    | nil => rfl
    | cons c rest => rw [List.nil_append, leadingDigits, noDigit_cons.mp ends]
  | cons c text ih =>
    cases values with
    | nil => cases digits
    | cons value values =>
      obtain ⟨first, others⟩ := List.cons.inj digits
      rw [List.cons_append, leadingDigits, first, ih others]

theorem ofDigits_concat (radix : Nat) (values : List Nat) (value : Nat) :
    ofDigits radix (values ++ [value]) = ofDigits radix values * radix + value := by
  simp [ofDigits]

/-- A `number` is written by `Digits` with its value, of which the first one is zero for zero only.
The induction is on the number without its last digit. -/
theorem exists_digits {radix : Nat} (least : 1 < radix) (most : radix ≤ 16) (number : Nat) :
    ∃ values, Digits radix (Nat.toDigits radix number) values ∧
      ofDigits radix values = number ∧ (values.head? = some 0 → number = 0) := by
  induction number using Nat.strongRecOn with
  | ind number ih =>
    by_cases small : number < radix
    · refine ⟨[number], ?_, by simp [ofDigits], by simp⟩
      rw [Nat.toDigits_of_lt_base small]
      exact digits_singleton small most
    · have large : radix ≤ number := Nat.le_of_not_lt small
      -- The digits without the last one are those of a smaller number.
      have fewer : number / radix < number := Nat.div_lt_self (by omega) least
      obtain ⟨values, digits, value, first⟩ := ih (number / radix) fewer
      have last : number % radix < radix := Nat.mod_lt number (by omega)
      have filled : values ≠ [] := by
        rintro rfl
        exact Nat.toDigits_ne_nil (List.map_eq_nil_iff.mp digits)
      refine ⟨values ++ [number % radix], ?_, ?_, fun zero => ?_⟩
      · rw [Nat.toDigits_of_base_le least large]
        exact digits.append (digits_singleton last most)
      · rw [ofDigits_concat, value, Nat.mul_comm, Nat.div_add_mod]
      · obtain ⟨head, others, rfl⟩ := List.exists_cons_of_ne_nil filled
        have none := first zero
        rw [Nat.div_eq_zero_iff] at none
        omega

/-- The digits of a `number` are digits. -/
theorem digitValue?_of_mem_toDigits {radix number : Nat} (least : 1 < radix) (most : radix ≤ 16)
    {c : Char} (member : c ∈ Nat.toDigits radix number) :
    ∃ value, digitValue? radix c = some value := by
  obtain ⟨values, digits, -⟩ := exists_digits least most number
  have read := List.mem_map_of_mem (f := digitValue? radix) member
  rw [digits] at read
  obtain ⟨value, -, same⟩ := List.mem_map.mp read
  exact ⟨value, same.symm⟩

/-! ## Numbers -/

/-- A `text` that does not begin with a digit does not begin with a number. -/
theorem leadingNumber?_of_noDigit {format : NumberFormat} {text : List Char}
    (other : NoDigit format.radix text) : leadingNumber? format text = none := by
  have none : leadingDigits format.radix ([] ++ text) = ([], text) := leadingDigits_append rfl other
  rw [List.nil_append] at none
  simp [leadingNumber?, none]

/-- A `number` of a `format` is written in at most so many digits. -/
def NumberFormat.Admits (format : NumberFormat) (number : Nat) : Prop :=
  number ≤ format.greatest ∧
    ∀ most ∈ format.maxDigits, 0 < most ∧ number < format.radix ^ most

/-- The digits of a `number` are read as the number. -/
theorem leadingNumber?_toDigits {format : NumberFormat} (least : 1 < format.radix)
    (most : format.radix ≤ 16) {number : Nat} (fits : format.Admits number) {rest : List Char}
    (ends : NoDigit format.radix rest) :
    leadingNumber? format (Nat.toDigits format.radix number ++ rest) = some (number, rest) := by
  obtain ⟨values, digits, value, first⟩ := exists_digits least most number
  have length := digits.length_eq
  have filled : values.isEmpty = false := by
    cases values with
    | nil => exact absurd (List.length_eq_zero_iff.mp length) Nat.toDigits_ne_nil
    | cons _ _ => rfl
  have short : format.maxDigits.any (· < values.length) = false := by
    cases limit : format.maxDigits with
    | none => rfl
    | some most =>
      obtain ⟨positive, below⟩ := fits.2 most limit
      have few := Nat.toDigits_length format.radix number most positive below
      simp only [Option.any_some, decide_eq_false_iff_not]
      omega
  -- Only zero itself begins with a zero, so there is no leading zero to object to.
  have single : values.head? = some 0 → values.length = 1 := by
    intro zero
    rw [← length, first zero, Nat.toDigits_zero]
    rfl
  rw [leadingNumber?, leadingDigits_append digits ends]
  dsimp only
  rw [value, if_neg]
  simp only [filled, short, Bool.false_eq_true, false_or, not_or, Nat.not_lt]
  exact ⟨fun ⟨_, more, zero⟩ => absurd (single zero) (by omega), fits.1⟩

/-- The digits of a `number` do not begin with a sign. -/
theorem head?_toDigits_ne_plus (number : Nat) (rest : List Char) :
    Nat.toDigits 10 number ≠ '+' :: rest := by
  intro same
  have member : '+' ∈ Nat.toDigits 10 number := same ▸ List.mem_cons_self
  obtain ⟨value, digit⟩ := digitValue?_of_mem_toDigits (by decide) (by decide) member
  cases digit

/-- A `number` that is written in decimal digits is read as the number. -/
theorem unsigned?_toDigits {greatest number : Nat} (fits : number ≤ greatest) :
    unsigned? greatest (Nat.toDigits 10 number) = some number := by
  have read : leadingNumber? ⟨10, none, true, greatest⟩ (Nat.toDigits 10 number ++ []) =
      some (number, []) :=
    leadingNumber?_toDigits (Nat.lt_of_sub_eq_succ rfl) (Nat.le_of_ble_eq_true rfl)
      ⟨fits, fun most limit => absurd limit (Option.not_mem_none most)⟩ (noDigit_nil 10)
  rw [List.append_nil] at read
  unfold unsigned?
  split
  · rename_i digits signed
    exact absurd signed (head?_toDigits_ne_plus number digits)
  · dsimp only
    rw [read]

end Text

end NameResolution
