import NameResolution.Text.Mnemonic

/-!
# Response codes

A `ResponseCode` says how a server took a query. A message has room for the low four bits only.
-/

namespace NameResolution

/-- How a server took a query. -/
structure ResponseCode where
  code : UInt8
  deriving DecidableEq

namespace ResponseCode

/-- The query was answered. -/
def noError : ResponseCode := ⟨0⟩
/-- The name asked for does not exist. -/
def nxDomain : ResponseCode := ⟨3⟩

/-- The `mnemonics` of response codes. -/
def mnemonics : Mnemonics where
  entries := [(0, "NOERROR"), (1, "FORMERR"), (2, "SERVFAIL"), (3, "NXDOMAIN"), (4, "NOTIMP"),
    (5, "REFUSED")]
  stem := "RCODE"
  greatest := 0xFF

/-- The mnemonic of a response `code`. -/
def mnemonic? (rcode : ResponseCode) : Option String := mnemonics.mnemonic? rcode.code.toNat

/-- The response code with the mnemonic `text`. -/
def ofMnemonic? (text : String) : Option ResponseCode :=
  (mnemonics.ofMnemonic? text).map fun code => ⟨UInt8.ofNat code⟩

/-- The response code that a `text` stands for. -/
def ofText? (text : String) : Option ResponseCode :=
  (mnemonics.ofText? text).map fun code => ⟨UInt8.ofNat code⟩

/-- The text of a response `code`. -/
def toText (rcode : ResponseCode) : String := mnemonics.toText rcode.code.toNat

instance : ToString ResponseCode := ⟨toText⟩

/-- What is said about a text that stands for no response `code`. -/
def unknownText : String := "unknown response code"

/-- The response code in the low four bits of an `octet`. -/
def ofBits (octet : UInt8) : ResponseCode := ⟨octet &&& 0x0F⟩

end ResponseCode

end NameResolution
