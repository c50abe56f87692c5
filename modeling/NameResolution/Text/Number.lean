/-!
# Numbers in texts

* `digitValue?`: the value of a digit in a radix up to sixteen.
* `leadingNumber?`: the number that a text begins with, and the rest of the text. All digits there
  are belong to the number; how many there may be, whether zeros may lead and how large the number
  may be is up to the caller.
* `unsigned?`: a whole text as an unsigned decimal number, possibly behind a plus sign.
* `hexText`, `hexTexts`, `hexOctets?`: octets as two hexadecimal digits each.
-/

namespace NameResolution

namespace Text

/-- The value of `c` as a digit in `radix`. -/
def digitValue? (radix : Nat) (c : Char) : Option Nat :=
  let value? :=
    if '0' ≤ c ∧ c ≤ '9' then some (c.toNat - '0'.toNat)
    else if 'a' ≤ c ∧ c ≤ 'f' then some (c.toNat - 'a'.toNat + 10)
    else if 'A' ≤ c ∧ c ≤ 'F' then some (c.toNat - 'A'.toNat + 10)
    else none
  value?.filter (· < radix)

/-- The values of the digits that `text` begins with, and the rest of `text`. -/
def leadingDigits (radix : Nat) : List Char → List Nat × List Char
  | [] => ([], [])
  | c :: rest =>
    match digitValue? radix c with
    | some value =>
      let (values, rest) := leadingDigits radix rest
      (value :: values, rest)
    | none => ([], c :: rest)

/-- The number with the given `digits`, the most significant first. -/
def ofDigits (radix : Nat) (digits : List Nat) : Nat := digits.foldl (· * radix + ·) 0

/-- What a number in a text may look like. -/
structure NumberFormat where
  radix : Nat
  maxDigits : Option Nat
  leadingZeros : Bool
  greatest : Nat

/-- The number that a `text` begins with, and what follows it. -/
def leadingNumber? (format : NumberFormat) (text : List Char) : Option (Nat × List Char) :=
  let (digits, rest) := leadingDigits format.radix text
  let value := ofDigits format.radix digits
  if digits.isEmpty ∨ format.maxDigits.any (· < digits.length) ∨
      (!format.leadingZeros ∧ 1 < digits.length ∧ digits.head? = some 0) ∨
      format.greatest < value then none
  else some (value, rest)

/-- A text as a decimal number of at most `greatest`; a plus sign may stand in front. -/
def unsigned? (greatest : Nat) (text : List Char) : Option Nat :=
  let digits := match text with
    | '+' :: digits => digits
    | digits => digits
  match leadingNumber? ⟨10, none, true, greatest⟩ digits with
  | some (value, []) => some value
  | _ => none

/-- The digit of a `value` below sixteen. -/
def hexDigit (value : Nat) : Char :=
  if value < 10 then Char.ofNat ('0'.toNat + value) else Char.ofNat ('a'.toNat + (value - 10))

/-- The two hexadecimal digits of an `octet`. -/
def hexText (octet : UInt8) : String :=
  String.ofList [hexDigit (octet.toNat / 16), hexDigit (octet.toNat % 16)]

/-- The two hexadecimal digits of each of some `octets`. -/
def hexTexts (octets : List UInt8) : String := String.join (octets.map hexText)

/-- The octets that are given by two hexadecimal digits each. -/
def hexOctets? : List Char → Option (List UInt8)
  | [] => some []
  | high :: low :: rest => do
    let value := (← digitValue? 16 high) * 16 + (← digitValue? 16 low)
    return UInt8.ofNat value :: (← hexOctets? rest)
  | _ => none

/-- The hexadecimal digits of `value`, without leading zeros. -/
def hexNumber (value : Nat) : String := String.ofList (Nat.toDigits 16 value)

/-- The decimal digits of a number. -/
def decimal (value : Nat) : String := String.ofList (Nat.toDigits 10 value)

end Text

end NameResolution
