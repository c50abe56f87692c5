import NameResolution.Address
import NameResolution.Name.Wire
import NameResolution.RecordType

/-!
# Record data

The data of a record is understood for the types that matter for resolving names; data of any
other type is kept as octets. Data of an understood type can also be given as octets; it then
carries neither an address nor a name.

* `RecordData.address?`, `RecordData.aliasTarget?`, `RecordData.additionalName?`: what data says
  about hosts.
* `RecordData.decoder`, `RecordData.write`: data in messages. The target of a subtree alias is
  never compressed.
* `RecordData.toText`: the text of data.
-/

namespace NameResolution

/-- The start of a zone of authority. The smaller one of `minimum` and the time to live says how
long the absence of data may be remembered. -/
structure Soa where
  primary : Name
  mailbox : Name
  serial : UInt32
  refresh : UInt32
  retry : UInt32
  expire : UInt32
  minimum : UInt32
  deriving DecidableEq

/-- What a record says about its owner. -/
inductive RecordData
  | a (address : Ipv4)
  | aaaa (address : Ipv6)
  | ns (server : Name)
  | cname (target : Name)
  | dname (target : Name)
  | ptr (target : Name)
  | mx (preference : UInt16) (exchange : Name)
  | soa (soa : Soa)
  | raw (type : RecordType) (octets : Octets)
  deriving DecidableEq

namespace Soa

/-- The data with its names in small letters. -/
def fold (soa : Soa) : Soa :=
  { soa with primary := soa.primary.fold, mailbox := soa.mailbox.fold }

/-- The text of the data. -/
def toText (soa : Soa) : String :=
  s!"{soa.primary} {soa.mailbox} {soa.serial} {soa.refresh} {soa.retry} {soa.expire} {soa.minimum}"

/-- Reads the data. -/
def decoder : Decoder Soa :=
  return ⟨← Name.decoder, ← Name.decoder, ← Decoder.long, ← Decoder.long, ← Decoder.long,
    ← Decoder.long, ← Decoder.long⟩

/-- Appends the data to a message. -/
def write (draft : Draft) (soa : Soa) : Except Misuse Draft := do
  let draft ← soa.mailbox.write (← soa.primary.write draft)
  return ((((draft.pushLong soa.serial).pushLong soa.refresh).pushLong soa.retry).pushLong
    soa.expire).pushLong soa.minimum

end Soa

namespace RecordData

/-- The `type` of the data. -/
def type : RecordData → RecordType
  | a _ => .a
  | aaaa _ => .aaaa
  | ns _ => .ns
  | cname _ => .cname
  | dname _ => .dname
  | ptr _ => .ptr
  | mx _ _ => .mx
  | soa _ => .soa
  | raw type _ => type

/-- The `data` with its names in small letters. -/
def fold : RecordData → RecordData
  | a address => a address
  | aaaa address => aaaa address
  | ns server => ns server.fold
  | cname target => cname target.fold
  | dname target => dname target.fold
  | ptr target => ptr target.fold
  | mx preference exchange => mx preference exchange.fold
  | soa data => soa data.fold
  | raw type octets => raw type octets

/-- Data is equal if it differs at most in the ASCII case of its names, so that `fold` makes it the
same. -/
instance : BEq RecordData := ⟨fun a b => decide (a.fold = b.fold)⟩

@[simp] theorem type_fold (data : RecordData) : data.fold.type = data.type := by
  cases data <;> rfl

/-! ## What data says about hosts -/

/-- The `address` of the owner. -/
def address? : RecordData → Option Address
  | a address => some (.v4 address)
  | aaaa address => some (.v6 address)
  | _ => none

/-- The name that the owner, or what is below it, is an alias of: the `target` of a `cname` or a
`dname`. -/
def aliasTarget? : RecordData → Option Name
  | cname target => some target
  | dname target => some target
  | _ => none

/-- The host whose addresses are useful along with the data: the `server` of an `ns`, the `exchange`
of an `mx`. -/
def additionalName? : RecordData → Option Name
  | ns server => some server
  | mx _ exchange => some exchange
  | _ => none

/-! ## Messages -/

/-- Reads the four octets of an `Ipv4` address. -/
def ipv4Decoder : Decoder Ipv4 :=
  return .ofOctets (← Decoder.octet) (← Decoder.octet) (← Decoder.octet) (← Decoder.octet)

/-- Reads the eight groups of an `Ipv6` address. -/
def ipv6Decoder : Decoder Ipv6 :=
  return ⟨#v[← Decoder.word, ← Decoder.word, ← Decoder.word, ← Decoder.word, ← Decoder.word,
    ← Decoder.word, ← Decoder.word, ← Decoder.word]⟩

/-- Reads data of a type; `length` octets of it if the type is not understood. -/
def decoder (type : RecordType) (length : Nat) : Decoder RecordData :=
  if type = .a then a <$> ipv4Decoder
  else if type = .aaaa then aaaa <$> ipv6Decoder
  else if type = .ns then ns <$> Name.decoder
  else if type = .cname then cname <$> Name.decoder
  else if type = .dname then dname <$> Name.decoder
  else if type = .ptr then ptr <$> Name.decoder
  else if type = .mx then return mx (← Decoder.word) (← Name.decoder)
  else if type = .soa then soa <$> Soa.decoder
  else raw type <$> Decoder.take length

/-- Appends `data` to a message. -/
def write (draft : Draft) : RecordData → Except Misuse Draft
  | a address => .ok (draft.push address.octets.toArray)
  | aaaa address => .ok (address.groups.foldl Draft.pushWord draft)
  | ns server => server.write draft
  | cname target => target.write draft
  | dname target => draft.push <$> target.plainOctets
  | ptr target => target.write draft
  | mx preference exchange => exchange.write (draft.pushWord preference)
  | soa data => data.write draft
  | raw _ octets => .ok (draft.push octets)

/-! ## Text -/

/-- The `text` of `data`. -/
def toText : RecordData → String
  | a address => address.toText
  | aaaa address => address.toText
  | ns server => server.toText
  | cname target => target.toText
  | dname target => target.toText
  | ptr target => target.toText
  | mx preference exchange => s!"{preference} {exchange}"
  | soa data => data.toText
  | raw _ octets =>
    octets.foldl (fun text octet => text ++ " " ++ Text.hexText octet) s!"\\# {octets.size}"

instance : ToString RecordData := ⟨toText⟩

end RecordData

end NameResolution
