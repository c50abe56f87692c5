import NameResolution.RecordClass
import NameResolution.RecordData

/-!
# Records

A `Record` says something about its owner for a time. In a message its data stands behind the
length of the data.
-/

namespace NameResolution

/-- A statement about an owner that holds for `ttl` seconds. -/
structure Record where
  owner : Name
  recordClass : RecordClass
  ttl : UInt32
  data : RecordData
  deriving DecidableEq

namespace Record

/-- A `Record` of an `owner`, which has to be absolute. -/
def make? (owner : Name) (recordClass : RecordClass) (ttl : UInt32) (data : RecordData) :
    Except Misuse Record :=
  if owner.absolute then .ok ⟨owner, recordClass, ttl, data⟩ else .error (.relativeOwner owner)

/-- The `type` of the `record`. -/
def type (record : Record) : RecordType := record.data.type

/-- The `record` with its names in small letters. -/
def fold (record : Record) : Record :=
  { record with owner := record.owner.fold, data := record.data.fold }

/-- Records are equal if they differ at most in the ASCII case of their names, so that `fold` makes
them the same. -/
instance : BEq Record := ⟨fun a b => decide (a.fold = b.fold)⟩

/-- The text of a `record`. -/
def toText (record : Record) : String :=
  s!"{record.owner} {record.ttl} {record.recordClass} {record.type} {record.data}"

instance : ToString Record := ⟨toText⟩

/-- Reads a `Record`. Its `data` has to take exactly the announced `length`. -/
def decoder : Decoder Record := do
  let owner ← Name.decoder
  let type ← RecordType.decoder
  let recordClass ← RecordClass.decoder
  let ttl ← Decoder.long
  let length := (← Decoder.word).toNat
  if (← Decoder.remaining) < length then fun _ _ => .error .shortInput
  else do
    let start ← Decoder.position
    let data ← RecordData.decoder type length
    if (← Decoder.position) - start = length then return ⟨owner, recordClass, ttl, data⟩
    else Decoder.malformed .trailingData

/-- Appends what `content` writes, behind its length. -/
def writePrefixed (draft : Draft) (content : Draft → Except Misuse Draft) :
    Except Misuse Draft := do
  let start := draft.octets.size + 2
  let written ← content (draft.pushWord 0)
  let length := written.octets.size - start
  if length ≤ 0xFFFF then
    let high := UInt8.ofNat (length / 256)
    let low := UInt8.ofNat (length % 256)
    return { written with
      octets := (written.octets.setIfInBounds (start - 2) high).setIfInBounds (start - 1) low }
  else throw .longData

/-- Appends a `record` to a message. -/
def write (draft : Draft) (record : Record) : Except Misuse Draft := do
  let draft ← record.owner.write draft
  let draft := ((draft.pushWord record.type.code).pushWord record.recordClass.code).pushLong
    record.ttl
  writePrefixed draft fun draft => record.data.write draft

end Record

end NameResolution
