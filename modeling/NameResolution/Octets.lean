/-!
# Octets and reading them

* `Octets`: a message, or a part of one, as it travels.
* `DecodeError`: why octets are not what they should be. Running out of octets is kept apart from
  malformed content, because only the former can be mended by more octets.
* `Decoder`: reads a value at a position of a message and moves the position behind it. The whole
  message stays in reach, since compressed names point back into it.
* `Octets.pushWord`, `Octets.pushLong`: numbers in network order, most significant octet first.
-/

namespace NameResolution

/-- A message, or a part of one, as it travels. -/
abbrev Octets := Array UInt8

/-- What is wrong with octets that do not follow the message format. -/
inductive FormFault
  | invalidLabelType
  | invalidPointer
  | longName
  | trailingData
  | notResponse
  deriving DecidableEq, Repr

/-- The text of a `FormFault`. -/
def FormFault.message : FormFault → String
  | .invalidLabelType => "invalid label type"
  | .invalidPointer => "invalid compression pointer"
  | .longName => "long domain name"
  | .trailingData => "trailing data in record"
  | .notResponse => "message is not a response"

/-- Why octets could not be read. -/
inductive DecodeError
  | shortInput
  | form (fault : FormFault)
  deriving DecidableEq, Repr

/-- The text of a `DecodeError`. -/
def DecodeError.message : DecodeError → String
  | .shortInput => "unexpected end of input"
  | .form fault => fault.message

/-- Reads a value from a message at a position; the result comes with the position behind it. -/
abbrev Decoder := ReaderT Octets (StateT Nat (Except DecodeError))

namespace Decoder

/-- Reads one `octet`. -/
def octet : Decoder UInt8 := fun message pos =>
  match message[pos]? with
  | some o => .ok (o, pos + 1)
  | none => .error .shortInput

/-- Reads `count` octets as they are. -/
def take (count : Nat) : Decoder Octets := fun message pos =>
  if pos + count ≤ message.size then .ok (message.extract pos (pos + count), pos + count)
  else .error .shortInput

/-- Reads a number of two octets. -/
def word : Decoder UInt16 := do
  let high ← octet
  let low ← octet
  return UInt16.ofNat (high.toNat * 256 + low.toNat)

/-- Reads a number of four octets. -/
def long : Decoder UInt32 := do
  let high ← word
  let low ← word
  return UInt32.ofNat (high.toNat * 65536 + low.toNat)

/-- The `position` that is read next. -/
def position : Decoder Nat := fun _ pos => .ok (pos, pos)

/-- How many octets are left. -/
def remaining : Decoder Nat := fun message pos => .ok (message.size - pos, pos)

/-- Fails because of malformed content. -/
def malformed {α : Type} (fault : FormFault) : Decoder α := fun _ _ => .error (.form fault)

/-- Reads `count` values one after the other. -/
def times {α : Type} (decoder : Decoder α) : Nat → Decoder (List α)
  | 0 => return []
  | count + 1 => do
    let first ← decoder
    let rest ← times decoder count
    return first :: rest

/-- Reads a value from the start of a `message`; what follows it is left alone. -/
def decodePrefix {α : Type} (decoder : Decoder α) (message : Octets) : Except DecodeError α :=
  (decoder message 0).map Prod.fst

end Decoder

/-- As many octets are cut out of a `message` as are asked for, if they are there. -/
theorem length_toList_extract {message : Octets} {start count : Nat}
    (inside : start + count ≤ message.size) :
    (message.extract start (start + count)).toList.length = count := by
  rw [Array.length_toList, Array.size_extract, Nat.min_eq_left inside, Nat.add_sub_cancel_left]

/-- The two octets of `value` in network order. -/
def wordOctets (value : UInt16) : List UInt8 :=
  [UInt8.ofNat (value.toNat / 256), UInt8.ofNat (value.toNat % 256)]

/-- The four octets of `value` in network order. -/
def longOctets (value : UInt32) : List UInt8 :=
  wordOctets (UInt16.ofNat (value.toNat / 65536)) ++ wordOctets (UInt16.ofNat (value.toNat % 65536))

/-- Appends a number of two octets. -/
def Octets.pushWord (octets : Octets) (value : UInt16) : Octets :=
  octets ++ (wordOctets value).toArray

/-- Appends a number of four octets. -/
def Octets.pushLong (octets : Octets) (value : UInt32) : Octets :=
  octets ++ (longOctets value).toArray

end NameResolution
