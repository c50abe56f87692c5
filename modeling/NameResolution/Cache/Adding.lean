import NameResolution.Cache.Store
import NameResolution.Misuse

/-!
# Adding to a cache

Data only takes the place of data that is not more credible. A single record joins a record set of
the same credibility; a whole set and a negative entry take the place of what was there. Something
without time to live is not kept but still removes what it could have replaced.

* `Cache.addRecord`, `Cache.addSet`, `Cache.addNegative`: adding a record, a record set, and the
  absence of records.
-/

namespace NameResolution

namespace Cache

/-- The end of the life of something that is kept from `now` on. -/
def expiry (now : Duration) (ttl : UInt32) (most : Duration) : Except Misuse Duration :=
  (now.add? (lifetime ttl most)).elim (.error .clockOverflow) .ok

/-- A `type` that appears in questions only cannot be kept. -/
def refuseQueryOnly (type : RecordType) : Op Cache Unit :=
  if type.IsQueryOnly then throw (.queryOnlyType type.toText) else pure ()

/-- Keeps a finding for `name` unless something more credible is known. -/
def addFinding (name : Name) (finding : Finding) (type : RecordType) (ttl : UInt32)
    (most : CacheSettings → Duration) (credibility : Credibility) (now : Duration) :
    Op Cache Unit := do
  let existing ← live name type now
  if existing.any (credibility < ·.credibility) then return
  if ttl = 0 then
    if existing.isSome then modify (·.remove name type)
  else
    let expireAt ← Op.ofExcept (expiry now ttl (most (← get).settings))
    modify (·.insert name ⟨finding, credibility, expireAt⟩)

/-- Adds a record `set`. -/
def addSet (set : RecordSet) (credibility : Credibility) (now : Duration) : Op Cache Unit := do
  refuseQueryOnly set.type
  addFinding set.owner (.present set) set.type set.ttl CacheSettings.maxLife credibility now

/-- Lets a record join the set of an entry. The entry then lives no longer than the record. Owner and
type are those of the entry, but nothing here keeps a record of another class out: `RecordSet.merge`
takes its data in, where a build with debug assertions stops. -/
def joinEntry (entry : Entry) (set : RecordSet) (record : Record) (now : Duration) :
    Op Cache Unit := do
  let joined := { entry with finding := .present (set.merge (.ofRecord record)) }
  modify (·.replace record.owner joined)
  let expireAt ← Op.ofExcept (expiry now record.ttl (← get).settings.maxLife)
  modify (·.replace record.owner { joined with expireAt := min joined.expireAt expireAt })

/-- Adds a `record`. -/
def addRecord (record : Record) (credibility : Credibility) (now : Duration) : Op Cache Unit := do
  refuseQueryOnly record.type
  match ← live record.owner record.type now with
  | some entry =>
    if credibility < entry.credibility then return
    match entry.finding with
    | .present set =>
      if entry.credibility = credibility then joinEntry entry set record now
      else addSet (.ofRecord record) credibility now
    | .absent _ => addSet (.ofRecord record) credibility now
  | none => addSet (.ofRecord record) credibility now

/-- Adds that there is nothing of `type` at `name`, for `ttl` seconds. -/
def addAbsence (name : Name) (type : RecordType) (ttl : UInt32) (credibility : Credibility)
    (now : Duration) : Op Cache Unit := do
  if name.absolute then
    addFinding name (.absent type) type ttl CacheSettings.maxNegativeLife credibility now
  else throw (.relativeInCache name)

/-- How long an SOA `Record` lets the absence of data be remembered. Without one it is not. -/
def absenceTtl : Option Record → Except Misuse UInt32
  | none => .ok 0
  | some ⟨_, _, ttl, .soa soa⟩ => .ok (min ttl soa.minimum)
  | some _ => .error .negativeWithoutSoa

/-- Adds that there is nothing of `type` at `name`, as said along with an SOA record. -/
def addNegative (name : Name) (type : RecordType) (soa : Option Record)
    (credibility : Credibility) (now : Duration) : Op Cache Unit := do
  addAbsence name type (← Op.ofExcept (absenceTtl soa)) credibility now

end Cache

end NameResolution
