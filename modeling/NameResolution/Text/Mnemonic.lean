import NameResolution.Text.Number

/-!
# Mnemonics

Numbers that the protocol assigns are written by their mnemonic, or, if they have none, by a fixed
word directly followed by the number. Both are read without regard to ASCII case, and the second
form is understood for every number.

* `Mnemonics`: the mnemonics of one kind of number.
* `Mnemonics.toText`, `Mnemonics.ofText?`: writing and reading a number.
-/

namespace NameResolution

/-- The `Mnemonics` of one kind of number, the word for numbers without one, and the greatest number
of the kind. -/
structure Mnemonics where
  entries : List (Nat × String)
  stem : String
  greatest : Nat

namespace Mnemonics

/-- The characters of a `text` with ASCII letters made small. -/
def foldText (text : String) : List Char := text.toList.map Char.toLower

/-- The mnemonic of a `number`. -/
def mnemonic? (table : Mnemonics) (number : Nat) : Option String := table.entries.lookup number

/-- The number with the mnemonic `text`. -/
def ofMnemonic? (table : Mnemonics) (text : String) : Option Nat :=
  (table.entries.find? fun entry => foldText entry.2 == foldText text).map Prod.fst

/-- The text of a `number`. -/
def toText (table : Mnemonics) (number : Nat) : String :=
  (table.mnemonic? number).getD (table.stem ++ Text.decimal number)

/-- The number that is written behind the word for numbers without mnemonic, `table.stem`. -/
def ofStem? (table : Mnemonics) (text : String) : Option Nat :=
  let letters := text.toList
  let length := table.stem.length
  if (letters.take length).map Char.toLower = foldText table.stem then
    Text.unsigned? table.greatest (letters.drop length)
  else none

/-- The number that a `text` stands for. -/
def ofText? (table : Mnemonics) (text : String) : Option Nat :=
  (table.ofMnemonic? text).or (table.ofStem? text)

end Mnemonics

end NameResolution
