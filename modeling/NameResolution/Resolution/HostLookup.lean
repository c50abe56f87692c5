import NameResolution.Resolution.Race

/-!
# Looking up hosts

A `HostLookup` finds the addresses of a host. An address in place of a name is its own result. An
absolute name, or one with dots enough, is looked up as it is; any other name below the names of the
search list, one after the other. For each name the host table comes first and then a race for
addresses. If that fails, the lookup asks once whether the name is an alias after all.

* `HostLookup.begin`: the first race of a lookup.
* `HostLookup.conclude`: goes on when a race may be closed.
-/

namespace NameResolution

/-- What a race is for: the `addresses` of the name that is looked up, whether this name is an alias
after looking for its addresses has failed, or the addresses of its target. -/
inductive Purpose
  | addresses
  | aliasQuestion (failure : Failure)
  | aliasAddresses

/-- What is left to try for a relative name. -/
structure Search where
  relative : Name
  suffixes : List Name
  lastFailure : Option Failure

/-- A host lookup under way. -/
structure HostLookup where
  race : Race
  purpose : Purpose
  search : Option Search

/-- How a host `lookup` goes on. -/
inductive HostProgress
  | finished (result : Except Failure FoundHosts)
  | racing (lookup : HostLookup)

namespace HostLookup

/-- Looks up an absolute `name`. -/
def tryName (name : Name) (search : Option Search) : Op Session HostProgress := do
  let resolver := (← get).resolver
  match resolver.hosts.addresses? name with
  | some addresses => return .finished (.ok ⟨name, addresses⟩)
  | none =>
    return .racing ⟨.forAddresses name resolver.settings.preference, .addresses, search⟩

/-- Looks up a relative `name` below the next `suffix`. Suffixes that make it too long are
skipped. -/
def tryNext (relative : Name) (lastFailure : Option Failure) :
    (suffixes : List Name) → Op Session HostProgress
  | [] => return .finished (.error (.searchExhausted (lastFailure.getD .noServers)))
  | suffix :: suffixes =>
    match relative.append? suffix with
    | .ok name => tryName name (some ⟨relative, suffixes, lastFailure⟩)
    | .error error => tryNext relative (some (.name error)) suffixes

/-- The names below which relative names are looked up, which are those in the `settings`; the root
if there are none. -/
def searchList (settings : Settings) : List Name :=
  if settings.search.isEmpty then [.root] else settings.search

/-- How many `dots` the text of a relative `name` has at most. -/
def dots (name : Name) : Nat := name.labelCount - 1

/-- Starts looking up a `host`. -/
def begin (host : String) : Op Session HostProgress := do
  match Address.ofText? host with
  | some address => return .finished (.ok ⟨.root, [address]⟩)
  | none =>
    match Name.ofText? host with
    | .error error => return .finished (.error (.name error))
    | .ok name =>
      let settings ← Session.settings
      if name.absolute ∨ settings.ndots ≤ dots name then tryName name.toAbsolute none
      else tryNext name none (searchList settings)

/-- Goes on after the `result` for one name: with the next one if there is any left to try. -/
def settle (search : Option Search) (result : Except Failure FoundHosts) :
    Op Session HostProgress :=
  match result, search with
  | .error failure, some search =>
    if Race.isFinal failure then return .finished result
    else tryNext search.relative (some failure) search.suffixes
  | result, _ => return .finished result

/-- Whether a `Failure` leaves open that the name is an alias. -/
def leavesAliasOpen : Failure → Bool
  | .budgetExhausted | .cancelled | .nxDomain => false
  | _ => true

/-- Asks whether a `name` is an alias, unless a call has done this already or it makes no sense. -/
def askAlias (lookup : HostLookup) (failure : Failure) : Op Session HostProgress := do
  let session ← get
  if leavesAliasOpen failure ∧ ¬session.allowance.aliasAsked then
    set { session with allowance := { session.allowance with aliasAsked := true } }
    return .racing { lookup with
      race := .forAlias lookup.race.name
      purpose := .aliasQuestion failure }
  else settle lookup.search (.error failure)

/-- Goes on with the `target` of an alias, or gives the `failure` that led to asking for one. -/
def followAlias (lookup : HostLookup) (failure : Failure) : Op Session HostProgress := do
  match lookup.race.aliasTarget? with
  | some target =>
    if target == lookup.race.name then settle lookup.search (.error failure)
    else
      return .racing { lookup with
        race := .forAddresses target (← Session.settings).preference
        purpose := .aliasAddresses }
  | none => settle lookup.search (.error failure)

/-- Closes the `race` and goes on. -/
def conclude (lookup : HostLookup) : Op Session HostProgress := do
  Session.withResolver lookup.race.drop
  match lookup.purpose with
  | .addresses =>
    match lookup.race.addresses with
    | .ok found => settle lookup.search (.ok found)
    | .error failure => lookup.askAlias failure
  | .aliasQuestion failure => lookup.followAlias failure
  | .aliasAddresses => settle lookup.search lookup.race.addresses

end HostLookup

end NameResolution
