import NameResolution.Octets
import NameResolution.Text.Mnemonic

/-!
# Record types

A `RecordType` says what the data of a record means. All sixteen bit values exist; a few have a
mnemonic.

* `RecordType.IsAddress`: the two types of addresses.
* `RecordType.IsQueryOnly`: types that make sense in a question only and never belong to data.
-/

namespace NameResolution

/-- What the data of a record means. -/
structure RecordType where
  code : UInt16
  deriving DecidableEq

namespace RecordType

/-- No type: under it the cache keeps that a name does not exist. -/
def nothing : RecordType := ⟨0⟩
/-- An IPv4 address. -/
def a : RecordType := ⟨1⟩
/-- A name server of a zone. -/
def ns : RecordType := ⟨2⟩
/-- The name that a name is an alias of. -/
def cname : RecordType := ⟨5⟩
/-- The start of a zone of authority. -/
def soa : RecordType := ⟨6⟩
/-- A pointer to a name. -/
def ptr : RecordType := ⟨12⟩
/-- A mail exchange. -/
def mx : RecordType := ⟨15⟩
/-- An IPv6 address. -/
def aaaa : RecordType := ⟨28⟩
/-- The name that a whole subtree is an alias of. -/
def dname : RecordType := ⟨39⟩
/-- All types at once; only in questions. -/
def any : RecordType := ⟨255⟩

/-- The `mnemonics` of record types. -/
def mnemonics : Mnemonics where
  entries := [(1, "A"), (2, "NS"), (5, "CNAME"), (6, "SOA"), (12, "PTR"), (15, "MX"), (16, "TXT"),
    (28, "AAAA"), (33, "SRV"), (39, "DNAME"), (41, "OPT"), (250, "TSIG"), (255, "ANY")]
  stem := "TYPE"
  greatest := 0xFFFF

/-- The mnemonic of a `type`. -/
def mnemonic? (type : RecordType) : Option String := mnemonics.mnemonic? type.code.toNat

/-- The type with the mnemonic `text`. -/
def ofMnemonic? (text : String) : Option RecordType :=
  (mnemonics.ofMnemonic? text).map fun code => ⟨UInt16.ofNat code⟩

/-- The type that a `text` stands for. -/
def ofText? (text : String) : Option RecordType :=
  (mnemonics.ofText? text).map fun code => ⟨UInt16.ofNat code⟩

/-- The text of a `type`. -/
def toText (type : RecordType) : String := mnemonics.toText type.code.toNat

instance : ToString RecordType := ⟨toText⟩

/-- What is said about a text that stands for no `type`. -/
def unknownText : String := "unknown record type"

/-- Records of the `type` carry an address. -/
def IsAddress (type : RecordType) : Prop := type = a ∨ type = aaaa

instance (type : RecordType) : Decidable type.IsAddress := inferInstanceAs (Decidable (_ ∨ _))

/-- The `type` appears in questions only. -/
def IsQueryOnly (type : RecordType) : Prop := 128 ≤ type.code ∧ type.code ≤ 255

instance (type : RecordType) : Decidable type.IsQueryOnly := inferInstanceAs (Decidable (_ ∧ _))

/-- Reads a type. -/
def decoder : Decoder RecordType := return ⟨← Decoder.word⟩

end RecordType

end NameResolution
