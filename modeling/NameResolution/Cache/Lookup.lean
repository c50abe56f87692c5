import NameResolution.Cache.Adding

/-!
# Looking up

A lookup for a name and type finds the closest and most specific data that counts and can be
trusted. Going from the name up to the root, at the name itself it looks for the type, then for
an alias; above it, for an alias of the subtree; in both places then for name servers; and at the
name at last for its absence.

* `Lookup`: what is found.
* `Cache.lookup`: looking up a name and type.
-/

namespace NameResolution

/-- What a cache knows about a name and type. -/
inductive Lookup
  | unknown
  | nxDomain
  | nxRrset
  | delegation (set : RecordSet)
  | cname (set : RecordSet)
  | dname (set : RecordSet)
  | successful (sets : List RecordSet)
  deriving DecidableEq

namespace Lookup

/-- The word for a finding. -/
def word : Lookup → String
  | unknown => "Unknown"
  | nxDomain => "NxDomain"
  | nxRrset => "NxRrset"
  | delegation _ => "Delegation"
  | cname _ => "Cname"
  | dname _ => "Dname"
  | successful _ => "Successful"

/-- The data was found: the case `successful`. -/
def isSuccessful : Lookup → Bool
  | successful _ => true
  | _ => false

/-- The absence of the data or of the name was found: the cases `nxRrset` and `nxDomain`. -/
def isNegative : Lookup → Bool
  | nxDomain => true
  | nxRrset => true
  | _ => false

/-- The data that was found in the case `successful`. -/
def answers? : Lookup → Option (List RecordSet)
  | successful sets => some sets
  | _ => none

/-- All record `sets` of a finding. -/
def sets : Lookup → List RecordSet
  | unknown | nxDomain | nxRrset => []
  | delegation set | cname set | dname set => [set]
  | successful sets => sets

end Lookup

namespace Cache

/-- What a lookup is for: a type, the least credibility, and the time. -/
structure Request where
  type : RecordType
  least : Credibility
  now : Duration

/-- The `Entry` of a `type` at a `name` that counts and can be trusted. -/
def trusted (request : Request) (name : Name) (type : RecordType) : StateM Cache (Option Entry) :=
  return (← live name type request.now).filter (request.least ≤ ·.credibility)

/-- The records of a `type` at a `name` that count and can be trusted. -/
def trustedSet (request : Request) (name : Name) (type : RecordType) :
    StateM Cache (Option RecordSet) :=
  return (← trusted request name type).bind (·.setAt? request.now)

/-- All records at a `name` that count and can be trusted. What has expired is dropped. -/
def collect (request : Request) (name : Name) : StateM Cache (List RecordSet) := do
  let cache ← get
  let counting := ((cache.entries? name).getD []).filter (¬ ·.IsExpired request.now)
  set ((cache.touch name).setEntries name counting)
  return (counting.filter (request.least ≤ ·.credibility)).filterMap (·.setAt? request.now)

/-- The answer for the `type` asked for, or else an alias. -/
def lookupExact (request : Request) (name : Name) : StateM Cache (Option Lookup) := do
  if request.type = .any then
    let sets ← collect request name
    return if sets.isEmpty then none else some (.successful sets)
  else
    match ← trusted request name request.type with
    | some entry =>
      return match entry.setAt? request.now with
        | some set => some (.successful [set])
        | none => some .nxRrset
    | none => return (← trustedSet request name .cname).map .cname

/-- What is known at the `name` itself. -/
def lookupAtName (request : Request) (name : Name) : StateM Cache (Option Lookup) := do
  match ← lookupExact request name with
  | some found => return some found
  | none =>
    match ← trustedSet request name .ns with
    | some set => return some (.delegation set)
    | none => return (← trusted request name .nothing).map fun _ => .nxDomain

/-- What is known at an `ancestor` of the name. -/
def lookupAtAncestor (request : Request) (ancestor : Name) : StateM Cache (Option Lookup) := do
  match ← trustedSet request ancestor .dname with
  | some set => return some (.dname set)
  | none => return (← trustedSet request ancestor .ns).map .delegation

/-- What is known at the nearest of some `ancestors`. -/
def lookupAbove (request : Request) : List Name → StateM Cache Lookup
  | [] => return .unknown
  | ancestor :: ancestors => do
    match ← lookupAtAncestor request ancestor with
    | some found => return found
    | none => lookupAbove request ancestors

/-- What is known about an absolute `name`. -/
def lookupSuffixes (request : Request) : List Name → StateM Cache Lookup
  | [] => return .unknown
  | name :: ancestors => do
    match ← lookupAtName request name with
    | some found => return found
    | none => lookupAbove request ancestors

/-- What the `Cache` knows about an absolute `name` and a `type` with at least some
`Credibility`. -/
def lookup (name : Name) (type : RecordType) (least : Credibility) (now : Duration) :
    Op Cache Lookup := do
  if name.absolute then
    modify evict
    let found ← lookupSuffixes ⟨type, least, now⟩ name.suffixes
    return found
  else throw (.relativeInCache name)

/-- The records of a `type` at a `name` with the credibility of an answer. -/
def findRecords (name : Name) (type : RecordType) (now : Duration) :
    Op Cache (Option (List RecordSet)) :=
  Lookup.answers? <$> lookup name type .normal now

end Cache

end NameResolution
