import NameResolution.Octets
import NameResolution.Text.Mnemonic

/-!
# Record classes

Every record and every question belongs to a class, nearly always the Internet class `IN`.
-/

namespace NameResolution

/-- The class of a record or a question. -/
structure RecordClass where
  code : UInt16
  deriving DecidableEq

namespace RecordClass

/-- The Internet. -/
def internet : RecordClass := ⟨1⟩

/-- The `mnemonics` of classes. -/
def mnemonics : Mnemonics where
  entries := [(1, "IN"), (3, "CH"), (4, "HS"), (0xFE, "NONE"), (0xFF, "*")]
  stem := "CLASS"
  greatest := 0xFFFF

/-- The mnemonic of the class `recordClass`. -/
def mnemonic? (recordClass : RecordClass) : Option String :=
  mnemonics.mnemonic? recordClass.code.toNat

/-- The class with the mnemonic `text`. -/
def ofMnemonic? (text : String) : Option RecordClass :=
  (mnemonics.ofMnemonic? text).map fun code => ⟨UInt16.ofNat code⟩

/-- The class that a `text` stands for. -/
def ofText? (text : String) : Option RecordClass :=
  (mnemonics.ofText? text).map fun code => ⟨UInt16.ofNat code⟩

/-- The text of a class. -/
def toText (recordClass : RecordClass) : String := mnemonics.toText recordClass.code.toNat

instance : ToString RecordClass := ⟨toText⟩

/-- What is said about a text that stands for no `class`. -/
def unknownText : String := "unknown class"

/-- Reads a class. -/
def decoder : Decoder RecordClass := return ⟨← Decoder.word⟩

end RecordClass

end NameResolution
