import NameResolution.Resolution.Inquiry

/-!
# Passes

A `Pass` resolves one name and one record type. It asks the servers of a rota in turn until one of
them settles the matter. A response may lead it on: to the target of an alias, which it asks the
same server for, or to the servers of a closer zone. Name servers whose addresses a referral does
not give are looked up by passes of their own, one nesting level deeper.

A pass always waits for exactly one query. In between it runs through, and each function here says
how it goes on: with a result, or with the next query.

* `Pass.start`: a new pass, which first looks into the cache.
* `Pass.resume`: goes on after an event of the query that the pass waits for.
-/

namespace NameResolution

/-- A pass that has been referred to servers and waits for the address of one of them: the server,
the types still to be looked up for it, and the servers after it. -/
structure Gathering where
  inquiry : Inquiry
  referral : Referral
  glue : List RecordSet
  server : Name
  types : List RecordType
  servers : List Name

/-- A `Pass`: the query it waits for, and the outer passes that wait for its result, the innermost
first. -/
structure Pass where
  asked : Asked
  outer : List Gathering

/-- How a pass goes on. -/
inductive Turn
  | finished (result : Except Failure Answer)
  | asked (asked : Asked)

/-- A pass goes on with the next query of its inquiry, if there is one. -/
def Turn.ofInquiry : Except Failure Asked → Turn
  | .ok next => .asked next
  | .error failure => .finished (.error failure)

/-- How a `pass`, with the passes inside it, goes on. -/
inductive Progress
  | finished (result : Except Failure Answer)
  | waiting (pass : Pass)

namespace Pass

/-- How deep passes may be nested. -/
def maxDepth : Nat := 1

/-- Starts a pass for a `name` and `type`. -/
def begin (name : Name) (type : RecordType) (depth : Nat) : Op Session Turn := do
  match ← Session.consultCache name type with
  | .hit result => return .finished result
  | .miss name =>
    let (zone, rota) ← Session.serversAround name
    return .ofInquiry (← Inquiry.askNext ⟨type, depth, name, rota, zone, none⟩)

/-! ## Gathering addresses of servers -/

/-- What looking up addresses of servers has come to: all is looked up, or a pass for the address of
a `server` has to wait. -/
inductive Gathered
  | complete (glue : List RecordSet)
  | waiting (asked : Asked) (glue : List RecordSet) (server : Name) (types : List RecordType)

/-- The address sets of an `answer`, for the name of the `server` that was looked up. -/
def gluesOf (server : Name) (answer : Answer) : List RecordSet :=
  (answer.sets.filter (·.type.IsAddress)).map fun set => { set with owner := server }

/-- The `glue` after the result of looking up a `server`; nothing if the budget is used up. -/
def takeIn? (server : Name) (glue : List RecordSet) :
    Except Failure Answer → Option (List RecordSet)
  | .ok answer => some (glue ++ gluesOf server answer)
  | .error .budgetExhausted => none
  | .error _ => some glue

/-- Looks up the addresses of a `server` for some `types`. Without budget the other types are left
out. -/
def gatherTypes (server : Name) (depth : Nat) (glue : List RecordSet) :
    List RecordType → Op Session Gathered
  | [] => return .complete glue
  | type :: types => do
    match ← begin server type depth with
    | .asked asked => return .waiting asked glue server types
    | .finished result =>
      match takeIn? server glue result with
      | some glue => gatherTypes server depth glue types
      | none => return .complete glue

/-- Looks up the addresses of `servers`. The result also says which servers are left. -/
def gatherServers (types : List RecordType) (depth : Nat) (glue : List RecordSet) :
    List Name → Op Session (Gathered × List Name)
  | [] => return (.complete glue, [])
  | server :: servers => do
    match ← gatherTypes server depth glue types with
    | .complete glue => gatherServers types depth glue servers
    | waiting => return (waiting, servers)

/-- The servers of a `referral` for which it gives no address set. -/
def bareServers (referral : Referral) : List Name :=
  referral.servers.additionalNames.filter fun name =>
    ¬ referral.glue.any fun set => set.owner == name

/-- The addresses of `glue` that may be used. -/
def usableAddresses (types : List RecordType) (glue : List RecordSet) : List Address :=
  RecordSet.addresses (glue.filter fun set => set.type ∈ types)

/-- Moves on to the `servers` of a `referral`. -/
def redirect (inquiry : Inquiry) (referral : Referral) (glue : List RecordSet) :
    Op Session Turn := do
  let settings ← Session.settings
  let _ ← Session.onResolver (Resolver.onDelegations (Delegations.add referral.servers glue))
  let addresses := usableAddresses settings.preference.types glue
  if addresses.isEmpty then
    return .finished (.error (inquiry.lastFailure.getD .noServers))
  else
    let rota := Rota.once (addresses.map (Endpoint.ofAddress · settings.port))
    return .ofInquiry (← Inquiry.askNext { inquiry with rota := rota, zone := referral.zone })

/-! ## Going on -/

/-- Goes on with a pass that has been referred, as far as the addresses of `servers` have been
gathered: it waits for one, or it moves on to the servers. -/
def takeUp (inquiry : Inquiry) (referral : Referral) :
    Gathered × List Name → Op Session (Turn × List Gathering)
  | (.complete glue, _) => return (← redirect inquiry referral glue, [])
  | (.waiting asked glue server types, servers) =>
    return (.asked asked, [⟨inquiry, referral, glue, server, types, servers⟩])

/-- Goes on gathering after the `result` of looking up a `server`. -/
def regather (gathering : Gathering) (result : Except Failure Answer) :
    Op Session (Gathered × List Name) := do
  let depth := gathering.inquiry.depth + 1
  let gathered ← match takeIn? gathering.server gathering.glue result with
    | some glue => gatherTypes gathering.server depth glue gathering.types
    | none => pure (.complete gathering.glue)
  match gathered with
  | .complete glue =>
    gatherServers (← Session.settings).preference.types depth glue gathering.servers
  | waiting => return (waiting, gathering.servers)

/-- Hands the `result` of a pass to the pass around it, which goes on, and so forth outwards. -/
def unwind : Turn → List Gathering → Op Session Progress
  | .asked asked, outer => return .waiting ⟨asked, outer⟩
  | .finished result, [] => return .finished result
  | .finished result, gathering :: outer => do
    let (turn, inner) ← takeUp gathering.inquiry gathering.referral
      (← regather gathering result)
    match turn with
    | .asked asked => return .waiting ⟨asked, inner ++ outer⟩
    | .finished result => unwind (.finished result) outer

/-- Starts a pass for a `name` and `type`. -/
def start (name : Name) (type : RecordType) : Op Session Progress := do
  unwind (← begin name type 0) []

/-- Follows a `referral` after looking up the addresses that it lacks. -/
def refer (inquiry : Inquiry) (referral : Referral) : Op Session (Turn × List Gathering) := do
  let types := (← Session.settings).preference.types
  let servers := if inquiry.depth < maxDepth then bareServers referral else []
  takeUp inquiry referral (← gatherServers types (inquiry.depth + 1) referral.glue servers)

/-- Chases an alias at the `server` that told about it. Only one alias is chased in a call. -/
def chase (asked : Asked) (target : Name) : Op Session Turn := do
  if (← get).allowance.chased then return .finished (.error .noMatchingRecord)
  modify fun session => { session with allowance := { session.allowance with chased := true } }
  match ← Session.consultCache target asked.inquiry.type with
  | .hit result => return .finished result
  | .miss target =>
    let inquiry := { asked.inquiry with name := target }
    return .ofInquiry (← inquiry.askServer asked.query.server)

/-- The `referral` leads strictly downwards from the `zone` whose servers gave it. -/
def LeadsDown (zone : Name) (referral : Referral) : Prop :=
  referral.zone.IsSubdomainOf zone ∧ ¬(referral.zone == zone)

instance (zone : Name) (referral : Referral) : Decidable (LeadsDown zone referral) :=
  inferInstanceAs (Decidable (_ ∧ _))

/-- Goes on with what a `response` means. -/
def react (asked : Asked) (response : Message) : Op Session (Turn × List Gathering) := do
  let inquiry := asked.inquiry
  match Outcome.classify response inquiry.name inquiry.type with
  | .answer answer => return (.finished (.ok answer), [])
  | .nxDomain => return (.finished (.error .nxDomain), [])
  | .noData => return (.finished (.error .noMatchingRecord), [])
  | .alias target => return (← chase asked target, [])
  | .referral referral =>
    if LeadsDown inquiry.zone referral then refer inquiry referral
    else return (.ofInquiry (← inquiry.retry (.serverFailure response.rcode)), [])

/-- Goes on after the query of a pass is settled with `result`. -/
def conclude (asked : Asked) (result : Settlement) : Op Session (Turn × List Gathering) := do
  match ← asked.inquiry.evaluate result with
  | .response response => react asked response
  | .again next => return (.asked next, [])
  | .failed failure => return (.finished (.error failure), [])

/-- Goes on after an `event` of the `query` that the `pass` waits for. -/
def resume (pass : Pass) (event : Event) : Op Session Progress := do
  let happened := Resolver.onRegistry (pass.asked.query.happen event)
  match ← Session.withResolver happened with
  | (none, query) => return .waiting { pass with asked := { pass.asked with query := query } }
  | (some result, _) =>
    let (turn, inner) ← conclude pass.asked result
    unwind turn (inner ++ pass.outer)

/-- Gives a `pass` up. -/
def drop (pass : Pass) : StateM Resolver Unit := Resolver.onRegistry pass.asked.query.drop

end Pass

end NameResolution
