import NameResolution.Text.Number

/-!
# Addresses

* `Ipv4`, `Ipv6`, `Address`: addresses of hosts, and their texts. The text of an IPv6 address
  leaves out its longest run of at least two zero groups, the first one if several are longest; an
  address that stands for an IPv4 address ends in that address.
* `Endpoint`: the address and port of a server. An IPv6 endpoint can be bound to a scope.
* `Address.ofText?`, `Endpoint.ofText?`: reading these texts. A decimal group of an IPv4 address
  has no leading zeros, and the last two groups of an IPv6 address may be written as an IPv4
  address.
-/

namespace NameResolution

/-- An IPv4 address. -/
structure Ipv4 where
  octets : Vector UInt8 4
  deriving DecidableEq

/-- An IPv6 address as eight groups of 16 bits. -/
structure Ipv6 where
  groups : Vector UInt16 8
  deriving DecidableEq

/-- The `address` of a host. -/
inductive Address
  | v4 (address : Ipv4)
  | v6 (address : Ipv6)
  deriving DecidableEq

/-- Where a server listens. Only a `v6` address can have a scope. -/
inductive Endpoint
  | v4 (address : Ipv4) (port : UInt16)
  | v6 (address : Ipv6) (port : UInt16) (scope : UInt32)
  deriving DecidableEq

/-! ## Writing -/

namespace Ipv4

/-- The address with the octets `a`, `b`, `c` and `d`. -/
def ofOctets (a b c d : UInt8) : Ipv4 := ⟨#v[a, b, c, d]⟩

/-- The host itself. -/
def loopback : Ipv4 := ofOctets 127 0 0 1

/-- The text of an `Ipv4` address. -/
def toText (address : Ipv4) : String :=
  ".".intercalate (address.octets.toList.map fun octet => Text.decimal octet.toNat)

/-- The address as two groups of 16 bits, for the end of an `Ipv6` address. -/
def groups (address : Ipv4) : List UInt16 :=
  let group (high low : UInt8) := UInt16.ofNat (high.toNat * 256 + low.toNat)
  [group address.octets[0] address.octets[1], group address.octets[2] address.octets[3]]

end Ipv4

namespace Ipv6

/-- The `groups` as text with colons between them. -/
def groupsText (groups : List UInt16) : String :=
  ":".intercalate (groups.map fun group => Text.hexNumber group.toNat)

/-- How many zeros the list `groups` begins with. -/
def leadingZeros (groups : List UInt16) : Nat := (groups.takeWhile (· = 0)).length

/-- Where the first of the longest runs of zeros in `groups` begins, and how long it is. -/
def longestZeros : List UInt16 → Nat × Nat
  | [] => (0, 0)
  | group :: groups =>
    let here := leadingZeros (group :: groups)
    let (start, length) := longestZeros groups
    if length ≤ here then (0, here) else (start + 1, length)

/-- The IPv4 `address` that an address stands for. -/
def mapped? (address : Ipv6) : Option Ipv4 :=
  match address.groups.toList with
  | [0, 0, 0, 0, 0, 0xFFFF, high, low] =>
    let octet (value : Nat) := UInt8.ofNat value
    some (.ofOctets (octet (high.toNat / 256)) (octet (high.toNat % 256)) (octet (low.toNat / 256))
      (octet (low.toNat % 256)))
  | _ => none

/-- The text of an `Ipv6` address. -/
def toText (address : Ipv6) : String :=
  match address.mapped? with
  | some mapped => "::ffff:" ++ mapped.toText
  | none =>
    let groups := address.groups.toList
    let (start, length) := longestZeros groups
    if 1 < length then
      groupsText (groups.take start) ++ "::" ++ groupsText (groups.drop (start + length))
    else groupsText groups

end Ipv6

namespace Address

/-- The text of an `Address`. -/
def toText : Address → String
  | v4 address => address.toText
  | v6 address => address.toText

instance : ToString Address := ⟨toText⟩

end Address

namespace Endpoint

/-- The `Endpoint` at an `address`. -/
def ofAddress (address : Address) (port : UInt16) : Endpoint :=
  match address with
  | .v4 address => .v4 address port
  | .v6 address => .v6 address port 0

/-- The `address` of an `Endpoint`. -/
def address : Endpoint → Address
  | v4 address _ => .v4 address
  | v6 address _ _ => .v6 address

/-- The `port` of an `Endpoint`. -/
def port : Endpoint → UInt16
  | v4 _ port => port
  | v6 _ port _ => port

/-- The text of an `Endpoint`. -/
def toText : Endpoint → String
  | v4 address port => address.toText ++ ":" ++ Text.decimal port.toNat
  | v6 address port scope =>
    let scopeText := if scope = 0 then "" else "%" ++ Text.decimal scope.toNat
    "[" ++ address.toText ++ scopeText ++ "]:" ++ Text.decimal port.toNat

instance : ToString Endpoint := ⟨toText⟩

end Endpoint

/-! ## Reading -/

namespace Text

/-- What follows `c` at the beginning of a text. -/
def skip? (c : Char) : List Char → Option (List Char)
  | d :: rest => if c = d then some rest else none
  | [] => none

/-- What follows a separator `c`, which the `first` item does not have. -/
def separator? (c : Char) (first : Bool) (text : List Char) : Option (List Char) :=
  if first then some text else skip? c text

/-- A group of an IPv4 address. -/
def octetFormat : NumberFormat := ⟨10, some 3, false, 0xFF⟩
/-- A group of an `Ipv6` address. -/
def groupFormat : NumberFormat := ⟨16, some 4, true, 0xFFFF⟩
/-- A port of an `Endpoint`. -/
def portFormat : NumberFormat := ⟨10, none, true, 0xFFFF⟩
/-- A scope of an `Endpoint`. -/
def scopeFormat : NumberFormat := ⟨10, none, true, 0xFFFFFFFF⟩

/-- Reads one group of an IPv4 address, as `octetFormat` has it. -/
def readOctet? (first : Bool) (text : List Char) : Option (UInt8 × List Char) := do
  let (value, rest) ← leadingNumber? octetFormat (← separator? '.' first text)
  return (UInt8.ofNat value, rest)

/-- Reads an `Ipv4` address. -/
def readIpv4? (text : List Char) : Option (Ipv4 × List Char) := do
  let (a, rest) ← readOctet? true text
  let (b, rest) ← readOctet? false rest
  let (c, rest) ← readOctet? false rest
  let (d, rest) ← readOctet? false rest
  return (.ofOctets a b c d, rest)

/-- The groups of an IPv6 address that a text begins with, up to `room` of them; whether the last
two were written as an IPv4 address; and the rest of the text. -/
def readGroups : (room : Nat) → (first : Bool) → List Char → List UInt16 × Bool × List Char
  | 0, _, text => ([], false, text)
  | room + 1, first, text =>
    match (if 1 ≤ room then (separator? ':' first text).bind readIpv4? else none) with
    | some (address, rest) => (address.groups, true, rest)
    | none =>
      match (separator? ':' first text).bind (leadingNumber? groupFormat) with
      | some (group, rest) =>
        let (groups, embedded, rest) := readGroups room false rest
        (UInt16.ofNat group :: groups, embedded, rest)
      | none => ([], false, text)

/-- The address with the groups `head` in front, `tail` at the end, and zeros between. -/
def joinGroups (head tail : List UInt16) : Ipv6 :=
  let zeros := List.replicate (8 - head.length - tail.length) 0
  ⟨Vector.ofFn fun i => (head ++ zeros ++ tail).getD i 0⟩

/-- Reads an `Ipv6` address. -/
def readIpv6? (text : List Char) : Option (Ipv6 × List Char) :=
  let (head, embedded, rest) := readGroups 8 true text
  if head.length = 8 then some (joinGroups head [], rest)
  else if embedded then none
  else do
    let rest ← skip? ':' rest
    let rest ← skip? ':' rest
    let (tail, _, rest) := readGroups (7 - head.length) true rest
    return (joinGroups head tail, rest)

/-- Reads a port behind its colon, as `portFormat` has it. -/
def readPort? (text : List Char) : Option (UInt16 × List Char) := do
  let (value, rest) ← leadingNumber? portFormat (← skip? ':' text)
  return (UInt16.ofNat value, rest)

/-- Reads a scope behind its percent sign; without one the scope is zero. -/
def readScope (text : List Char) : UInt32 × List Char :=
  match (skip? '%' text).bind (leadingNumber? scopeFormat) with
  | some (value, rest) => (UInt32.ofNat value, rest)
  | none => (0, text)

/-- Reads an IPv4 `Endpoint`. -/
def readEndpoint4? (text : List Char) : Option (Endpoint × List Char) := do
  let (address, rest) ← readIpv4? text
  let (port, rest) ← readPort? rest
  return (.v4 address port, rest)

/-- Reads an IPv6 `Endpoint`. -/
def readEndpoint6? (text : List Char) : Option (Endpoint × List Char) := do
  let (address, rest) ← readIpv6? (← skip? '[' text)
  let (scope, rest) := readScope rest
  let (port, rest) ← readPort? (← skip? ']' rest)
  return (.v6 address port scope, rest)

/-- The `value` read from a text if nothing is left of the text. -/
def whole? {α : Type} : Option (α × List Char) → Option α
  | some (value, []) => some value
  | _ => none

end Text

/-- The IPv4 address that a `text` stands for. -/
def Ipv4.ofText? (text : String) : Option Ipv4 := Text.whole? (Text.readIpv4? text.toList)

/-- The IPv6 address that a `text` stands for. -/
def Ipv6.ofText? (text : String) : Option Ipv6 := Text.whole? (Text.readIpv6? text.toList)

/-- The `Address` that a `text` stands for. -/
def Address.ofText? (text : String) : Option Address :=
  match Text.readIpv4? text.toList with
  | some (address, rest) => Text.whole? (some (.v4 address, rest))
  | none => (Ipv6.ofText? text).map .v6

/-- The `Endpoint` that a `text` stands for. -/
def Endpoint.ofText? (text : String) : Option Endpoint :=
  match Text.readEndpoint4? text.toList with
  | some found => Text.whole? (some found)
  | none => Text.whole? (Text.readEndpoint6? text.toList)

end NameResolution
