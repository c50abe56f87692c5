import NameResolution.Record

/-!
# Record sets

A `RecordSet` holds the records of one owner, type and class, of which there is always at least
one. They share a time to live, the smallest one of the records seen, and each datum is kept once.

* `RecordSet.ofRecord`, `RecordSet.push`, `RecordSet.merge`: building sets.
* `RecordSet.group`: the sets that a list of records consists of, in the order of their first
  records.
-/

namespace NameResolution

/-- The records of one owner, type and class. The type is that of the first datum. -/
structure RecordSet where
  owner : Name
  recordClass : RecordClass
  ttl : UInt32
  first : RecordData
  others : List RecordData
  deriving DecidableEq

namespace RecordSet

/-- The `type` of the records. -/
def type (set : RecordSet) : RecordType := set.first.type

/-- The `data` of the records. -/
def data (set : RecordSet) : List RecordData := set.first :: set.others

/-- The set that holds one `record`. -/
def ofRecord (record : Record) : RecordSet :=
  ⟨record.owner, record.recordClass, record.ttl, record.data, []⟩

/-- The `record` has the owner, type and class of the `set`. -/
def Belongs (set : RecordSet) (record : Record) : Prop :=
  (set.owner == record.owner) = true ∧ set.type = record.type ∧
    set.recordClass = record.recordClass

instance (set : RecordSet) (record : Record) : Decidable (set.Belongs record) :=
  inferInstanceAs (Decidable (_ ∧ _))

/-- Adds a `datum` that is not there yet. -/
def addDatum (set : RecordSet) (datum : RecordData) : RecordSet :=
  if set.data.contains datum then set else { set with others := set.others ++ [datum] }

/-- Adds a `record`, provided that it belongs to the `set`. -/
def push? (set : RecordSet) (record : Record) : Option RecordSet :=
  if set.Belongs record then
    some ({ set with ttl := min set.ttl record.ttl }.addDatum record.data)
  else none

/-- Adds a `record`, or leaves it out if it does not belong to the `set`. -/
def push (set : RecordSet) (record : Record) : RecordSet := (set.push? record).getD set

/-- Adds the data of another `set` of the same owner, type and class. That they are the same is up
to the caller: a build with debug assertions stops here if they are not, and this is left out. -/
def merge (set other : RecordSet) : RecordSet :=
  other.data.foldl addDatum { set with ttl := min set.ttl other.ttl }

/-- The `records` of the `set`. -/
def records (set : RecordSet) : List Record :=
  set.data.map fun datum => ⟨set.owner, set.recordClass, set.ttl, datum⟩

/-- The text of the `records`, one on a line. -/
def toText (set : RecordSet) : String := "\n".intercalate (set.records.map Record.toText)

instance : ToString RecordSet := ⟨toText⟩

/-- Puts a `record` into the first `set` that it belongs to, or into a set of its own at the end. -/
def insertRecord : List RecordSet → Record → List RecordSet
  | [], record => [ofRecord record]
  | set :: sets, record =>
    match set.push? record with
    | some set => set :: sets
    | none => set :: insertRecord sets record

/-- The sets that `records` consist of. -/
def group (records : List Record) : List RecordSet := records.foldl insertRecord []

/-- The `addresses` that the `sets` give. -/
def addresses (sets : List RecordSet) : List Address :=
  sets.flatMap fun set => set.data.filterMap RecordData.address?

/-- The hosts whose addresses are useful along with the `set`. -/
def additionalNames (set : RecordSet) : List Name := set.data.filterMap RecordData.additionalName?

end RecordSet

end NameResolution
