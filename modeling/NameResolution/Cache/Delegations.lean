import NameResolution.Cache.Lookup

/-!
# Delegations

`Delegations` remember the name servers of zones that referrals told about: the servers of a zone
as hints, and their addresses as glue. The root is never remembered; its servers are the
configured ones.

* `Delegations.add`: remembers the servers of a zone.
* `Delegations.serversFor`: the servers of the closest zone around a name for which addresses are
  known.
-/

namespace NameResolution

/-- The name servers of zones, and their addresses, in a `Cache` of its own. -/
structure Delegations where
  cache : Cache

namespace Delegations

/-- No zones. The limits are those of the `settings`. -/
def empty (settings : CacheSettings) : Delegations := ⟨.empty settings⟩

/-- Whether nothing is remembered. -/
def isEmpty (delegations : Delegations) : Bool := delegations.cache.isEmpty

/-- Forgets everything. -/
def clear (delegations : Delegations) : Delegations := ⟨delegations.cache.clear⟩

/-- An operation on the `Cache` behind `Delegations`. -/
def onCache {α : Type} (op : Op Cache α) : Op Delegations α :=
  Op.onPart Delegations.cache (fun _ cache => ⟨cache⟩) op

/-- Remembers those of the address `sets` that belong to listed `servers`. -/
def addGlue (servers : RecordSet) (now : Duration) : List RecordSet → Op Cache Unit
  | [] => return
  | set :: sets => do
    if set.type.IsAddress ∧ servers.additionalNames.contains set.owner then
      Cache.addSet set .glue now
    addGlue servers now sets

/-- Remembers the `servers` of a zone and their addresses. Says whether it did; it does not for the
root. -/
def add (servers : RecordSet) (glue : List RecordSet) (now : Duration) : Op Delegations Bool :=
  onCache do
    if servers.owner.isRoot then return false
    if servers.type = .ns then
      Cache.addSet servers .hint now
      addGlue servers now glue
      return true
    else throw .delegationWithoutServers

/-- The known `addresses` of a `server`. -/
def serverAddresses (server : Name) (now : Duration) : List RecordType → Op Cache (List Address)
  | [] => return []
  | type :: types => do
    let found ← Cache.lookup server type .glue now
    let more ← serverAddresses server now types
    return RecordSet.addresses (found.answers?.getD []) ++ more

/-- The known addresses of `servers`. -/
def allAddresses (now : Duration) : List Name → Op Cache (List Address)
  | [] => return []
  | server :: servers => do
    let here ← serverAddresses server now [.a, .aaaa]
    let more ← allAddresses now servers
    return here ++ more

/-- The known addresses of the servers of exactly this `zone`. -/
def zoneAddresses (zone : Name) (now : Duration) : Op Cache (List Address) := do
  match (← Cache.lookup zone .ns .hint now).answers? with
  | some sets => allAddresses now (sets.flatMap RecordSet.additionalNames)
  | none => return []

/-- The last of some `zones` for which `addresses` are known, with these. -/
def deepest (port : UInt16) (now : Duration) (found : Option (Name × List Endpoint)) :
    List Name → Op Cache (Option (Name × List Endpoint))
  | [] => return found
  | zone :: zones => do
    let addresses ← zoneAddresses zone now
    if addresses.isEmpty then deepest port now found zones
    else deepest port now (some (zone, addresses.map (Endpoint.ofAddress · port))) zones

/-- The servers of the closest zone around `name` for which addresses are known. -/
def serversFor (name : Name) (port : UInt16) (now : Duration) :
    Op Delegations (Option (Name × List Endpoint)) :=
  onCache (deepest port now none (name.suffixes.filter (!·.isRoot)).reverse)

end Delegations

end NameResolution
