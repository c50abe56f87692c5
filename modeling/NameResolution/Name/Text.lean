import NameResolution.Name.Basic

/-!
# The presentation format of names

Labels are written with dots between them, and a name that ends in an unescaped dot is absolute.
`.` alone is the root and `@` the empty relative name. A backslash takes the next character as it
is, or stands with three decimal digits for the octet of that value.

* `Name.scan`: cuts a text into the octets of its labels. It stops at the first fault, so the
  leftmost fault of a text is the one that is reported.
* `Name.parse?`: the name that a text stands for, below an origin if one is given.
* `Name.toText`: the text of a name, in printable ASCII without blanks.
-/

namespace NameResolution

namespace Name

/-! ## Reading -/

/-- How the labels of a text end. -/
inductive Ending
  | relative
  | absolute
  | fault (error : NameError)
  deriving DecidableEq

/-- The value of the decimal digit `c`. -/
def digit? (c : Char) : Option Nat :=
  if c.isDigit then some (c.toNat - '0'.toNat) else none

/-- The octet given by the decimal digits `a`, `b` and `c`. -/
def octetOfDigits? (a b c : Char) : Option UInt8 := do
  let value := (← digit? a) * 100 + (← digit? b) * 10 + (← digit? c)
  if value ≤ 255 then some (UInt8.ofNat value) else none

/-- The labels that a text consists of, as octets, and how they end; `label` is what has been read
of the label in progress. -/
def scan (label : List UInt8) : List Char → List (List UInt8) × Ending
  | [] => ([label], .relative)
  | '.' :: rest =>
    if rest.isEmpty then ([label], .absolute)
    else
      let (labels, ending) := scan [] rest
      (label :: labels, ending)
  | '\\' :: escaped =>
    match escaped with
    | [] => ([], .fault .badEscape)
    | c :: rest =>
      if c.isDigit then
        match rest with
        | d :: e :: rest =>
          match octetOfDigits? c d e with
          | some octet =>
            let label := label ++ [octet]
            if Label.maxLength < label.length then ([], .fault .longLabel) else scan label rest
          | none => ([], .fault .badEscape)
        | _ => ([], .fault .badEscape)
      else
        let label := label ++ String.utf8EncodeChar c
        if Label.maxLength < label.length then ([], .fault .longLabel) else scan label rest
  | c :: rest =>
    let label := label ++ String.utf8EncodeChar c
    if Label.maxLength < label.length then ([], .fault .longLabel) else scan label rest

/-- The name that consists of scanned `labels`; a `fault` of a complete label lies to the left of
the fault that ended the scan. -/
def ofScan? (labels : List (List UInt8)) : Ending → Except NameError Name
  | .relative => ofLabels? labels false
  | .absolute => ofLabels? labels true
  | .fault error => do
    let _ ← ofLabels? labels false
    throw error

/-- The name that a `text` stands for by itself. -/
def ofText? (text : String) : Except NameError Name :=
  if text = "@" then .ok empty
  else if text = "." then .ok root
  else
    let (labels, ending) := scan [] text.toList
    ofScan? labels ending

/-- The name that a text stands for: a relative name is taken below `origin`, and `@` is the
origin itself. -/
def parse? (text : String) (origin : Option Name) : Except NameError Name :=
  match origin with
  | none => ofText? text
  | some origin => if text = "@" then .ok origin else do (← ofText? text).append? origin

/-! ## Writing -/

/-- The characters that are written behind a backslash. -/
def escapedChars : List Char := ['.', '\\', '"', '(', ')', ';', '@', '$']

/-- The decimal digit of a `value` below ten. -/
def digitChar (value : Nat) : Char := Char.ofNat ('0'.toNat + value)

/-- The text of one `octet` of a label. -/
def octetText (octet : UInt8) : List Char :=
  let c := Char.ofNat octet.toNat
  if c ∈ escapedChars then ['\\', c]
  else if 0x21 ≤ octet ∧ octet ≤ 0x7E then [c]
  else ['\\', digitChar (octet.toNat / 100), digitChar (octet.toNat / 10 % 10),
    digitChar (octet.toNat % 10)]

/-- The text of a `label`. -/
def labelText (label : Label) : List Char := label.octets.flatMap octetText

/-- The text of `labels` with dots between them. -/
def labelsText : List Label → List Char
  | [] => []
  | [label] => labelText label
  | label :: labels => labelText label ++ '.' :: labelsText labels

/-- The text of a `name`. -/
def toText (name : Name) : String :=
  if name.labels.isEmpty then (if name.absolute then "." else "@")
  else String.ofList (labelsText name.labels ++ if name.absolute then ['.'] else [])

instance : ToString Name := ⟨toText⟩

end Name

end NameResolution
