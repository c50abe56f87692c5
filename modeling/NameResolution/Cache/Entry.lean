import NameResolution.Cache.Credibility
import NameResolution.Duration
import NameResolution.RecordSet

/-!
# Cache entries

An `Entry` is what a cache knows about one name and type: a record set, or that there is none. It
counts until the clock reaches the end of its life.

* `Entry.IsExpired`: the end of an entry has come.
* `Entry.setAt?`: the record set of an entry with the time that is left to it.
* `lifetime`: how long something with a time to live is kept.
-/

namespace NameResolution

/-- What an entry says: the records there are, or that there are none of a `type`. -/
inductive Finding
  | present (set : RecordSet)
  | absent (type : RecordType)
  deriving DecidableEq

/-- What a cache knows about one name and type, how far it can be trusted, and until when it
counts. -/
structure Entry where
  finding : Finding
  credibility : Credibility
  expireAt : Duration
  deriving DecidableEq

/-- How long something with a time to live is kept if `most` is the limit. -/
def lifetime (ttl : UInt32) (most : Duration) : Duration := min (.ofSeconds ttl.toNat) most

namespace Entry

/-- The `type` that the `entry` is about. -/
def type (entry : Entry) : RecordType :=
  match entry.finding with
  | .present set => set.type
  | .absent type => type

/-- The `entry` says that there is nothing. -/
def isNegative (entry : Entry) : Bool :=
  match entry.finding with
  | .present _ => false
  | .absent _ => true

/-- The `entry` no longer counts. -/
def IsExpired (entry : Entry) (now : Duration) : Prop := entry.expireAt ≤ now

instance (entry : Entry) (now : Duration) : Decidable (entry.IsExpired now) :=
  inferInstanceAs (Decidable (_ ≤ _))

/-- The whole seconds that are left to the `entry`, as a time to live. -/
def ttlAt (entry : Entry) (now : Duration) : UInt32 :=
  UInt32.ofNat (min (entry.expireAt.saturatingSub now).seconds 0xFFFFFFFF)

/-- The records with the time that is left to them `now`. -/
def setAt? (entry : Entry) (now : Duration) : Option RecordSet :=
  match entry.finding with
  | .present set => some { set with ttl := entry.ttlAt now }
  | .absent _ => none

end Entry

end NameResolution
