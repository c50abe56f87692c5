import NameResolution.Octets
import NameResolution.ResponseCode

/-!
# Message headers

A `Header` is what a message begins with: its ID and two octets of flags. The section counts that
follow in a message are not part of it. Bits without a meaning here are kept as they come.

The first octet of flags holds, from the top, the response flag, four bits of opcode, and the
flags for an authoritative answer, a truncated message and desired recursion. The second one holds
the flag for available recursion, three unused bits, and four bits of response code.
-/

namespace NameResolution

/-- The ID and the flags of a `Message`. -/
structure Header where
  id : UInt16
  upper : UInt8
  lower : UInt8
  deriving DecidableEq

namespace Header

/-- A `Header` with nothing set. -/
def empty : Header := ⟨0, 0, 0⟩

/-- `octet` with the bits of `mask` set or cleared. -/
def withBits (octet mask : UInt8) (on : Bool) : UInt8 :=
  if on then octet ||| mask else octet &&& ~~~mask

/-- The message is a response. -/
def isResponse (header : Header) : Bool := (header.upper &&& 0x80) != 0
/-- The kind of query. -/
def opcode (header : Header) : UInt8 := (header.upper / 8) &&& 0x0F
/-- The server speaks for the zone of the question. -/
def isAuthoritative (header : Header) : Bool := (header.upper &&& 0x04) != 0
/-- The message was cut short. -/
def isTruncated (header : Header) : Bool := (header.upper &&& 0x02) != 0
/-- The sender wants the server to go on asking. -/
def recursionDesired (header : Header) : Bool := (header.upper &&& 0x01) != 0
/-- The server would go on asking. -/
def recursionAvailable (header : Header) : Bool := (header.lower &&& 0x80) != 0
/-- How the server took the query. -/
def rcode (header : Header) : ResponseCode := .ofBits header.lower

/-- Sets the flag of a response, if it is to be `on`. -/
def setResponse (header : Header) (on : Bool) : Header :=
  { header with upper := withBits header.upper 0x80 on }
/-- Sets the kind of query to the low four bits of `opcode`. -/
def setOpcode (header : Header) (opcode : UInt8) : Header :=
  { header with upper := (header.upper &&& 0x87) ||| ((opcode &&& 0x0F) * 8) }
/-- Sets the flag of an authoritative answer, if it is to be `on`. -/
def setAuthoritative (header : Header) (on : Bool) : Header :=
  { header with upper := withBits header.upper 0x04 on }
/-- Sets the flag of a truncated message, if it is to be `on`. -/
def setTruncated (header : Header) (on : Bool) : Header :=
  { header with upper := withBits header.upper 0x02 on }
/-- Sets the flag of desired recursion, if it is to be `on`. -/
def setRecursionDesired (header : Header) (on : Bool) : Header :=
  { header with upper := withBits header.upper 0x01 on }
/-- Sets the flag of available recursion, if it is to be `on`. -/
def setRecursionAvailable (header : Header) (on : Bool) : Header :=
  { header with lower := withBits header.lower 0x80 on }
/-- Sets the response code to the low four bits of `rcode`. -/
def setRcode (header : Header) (rcode : ResponseCode) : Header :=
  { header with lower := (header.lower &&& 0xF0) ||| (rcode.code &&& 0x0F) }

/-- Reads a `Header`. -/
def decoder : Decoder Header := return ⟨← Decoder.word, ← Decoder.octet, ← Decoder.octet⟩

/-- The four octets of a `header`. -/
def octets (header : Header) : Octets :=
  ((Octets.pushWord #[] header.id).push header.upper).push header.lower

end Header

end NameResolution
