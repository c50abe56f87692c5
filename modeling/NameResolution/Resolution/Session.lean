import NameResolution.Resolution.Budget
import NameResolution.Resolution.Outcome
import NameResolution.Resolver

/-!
# Sessions

A `Session` is a resolver at work for one call. The call has an `Allowance`: a budget of queries,
one alias that it may chase at a server, and one question for a bare alias.

* `Session.ask`: puts a question to a server, which takes one query out of the budget.
* `Session.consultCache`: what the cache knows about a name and type. Aliases are followed within
  the cache for a number of steps.
* `Session.serversAround`: the servers to ask about a name, and the zone that they serve.
-/

namespace NameResolution

/-- What a `Call` may still do. -/
structure Allowance where
  budget : Budget
  /-- An alias has been chased at a server. -/
  chased : Bool
  /-- A name has been asked for as a bare alias. -/
  aliasAsked : Bool

/-- All that a call may do at its start. -/
def Allowance.full (budget : Nat) : Allowance := ⟨.full budget, false, false⟩

/-- A `Resolver` at work for a call. -/
structure Session where
  resolver : Resolver
  allowance : Allowance

/-- What the cache makes of a `name`: a `result`, or a name to ask servers for. -/
inductive Cached
  | hit (result : Except Failure Answer)
  | miss (name : Name)

/-- What comes of asking a server: a `Query` is on its way, or it is refused. -/
abbrev Asking := Except Failure Query

namespace Session

/-- An operation on the `Resolver`. -/
def onResolver {α : Type} (op : Op Resolver α) : Op Session α :=
  Op.onPart Session.resolver (fun session resolver => { session with resolver := resolver }) op

/-- An operation on the `Resolver` that is never refused. -/
def withResolver {α : Type} (op : StateM Resolver α) : Op Session α :=
  onResolver (ExceptT.lift op)

/-- The `settings` of the `resolver`. -/
def settings : Op Session Settings := return (← get).resolver.settings

/-! ## Asking servers -/

/-- Takes one query out of the `budget`. -/
def takeQuery : Op Session Bool := do
  let session ← get
  match session.allowance.budget.take? with
  | some budget =>
    set { session with allowance := { session.allowance with budget := budget } }
    return true
  | none => return false

/-- Begins a registered `query` and puts it into the `outbox`. -/
def send (query : Query) : Op Session Query := do
  let (octets, query) := (Query.begin (← get).resolver.hook).runOn query
  match octets with
  | .ok octets =>
    withResolver (modify fun resolver => { resolver with
      outbox := resolver.outbox ++ [⟨query.server, octets, query.serial⟩] })
    return query
  | .error misuse =>
    withResolver (Resolver.onRegistry query.drop)
    throw misuse

/-- Puts a `question` to a `server`. -/
def ask (server : Endpoint) (name : Name) (type : RecordType) : Op Session Asking := do
  if (← get).resolver.closed then return .error .cancelled
  if ← takeQuery then
    let question := Question.internet name type
    match ← withResolver (Resolver.onRegistry (Query.register server question)) with
    | .ok query => return .ok (← send query)
    | .error failure => return .error failure
  else return .error .budgetExhausted

/-! ## Using what is known -/

/-- The most aliases that are followed within the cache. -/
def cachedAliases : Nat := 16

/-- The name that a finding makes `name` an alias of. -/
def aliasFound? (name : Name) : Lookup → Option Name
  | .cname set => set.data.findSome? RecordData.aliasTarget?
  | .dname set => match set.first with
    | .dname target => match name.rewrite? set.owner target with
      | .ok next => next
      | .error _ => none
    | _ => none
  | _ => none

/-- The result that a finding is for a `name`. -/
def resultFound? (name : Name) : Lookup → Option (Except Failure Answer)
  | .successful sets => some (.ok ⟨name, sets⟩)
  | .nxDomain => some (.error .nxDomain)
  | .nxRrset => some (.error .noMatchingRecord)
  | _ => none

/-- Looks a name and type up in the cache and follows at most `steps` aliases. -/
def followCached (type : RecordType) (now : Duration) : (steps : Nat) → Name → Op Cache Cached
  | 0, name => return .miss name
  | steps + 1, name => do
    let found ← Cache.lookup name type .normal now
    match resultFound? name found, aliasFound? name found with
    | some result, _ => return .hit result
    | none, some next => followCached type now steps next
    | none, none => return .miss name

/-- What the cache knows about a `name` and `type`. -/
def consultCache (name : Name) (type : RecordType) : Op Session Cached :=
  onResolver (Resolver.onCache fun now => followCached type now cachedAliases name)

/-- The `servers` of the closest `zone` around a `name` that referrals told about, each once, or
else the configured servers, which are asked about everything. -/
def serversAround (name : Name) : Op Session (Name × Rota) := do
  let port := (← settings).port
  match ← onResolver (Resolver.onDelegations (Delegations.serversFor name port)) with
  | some (zone, servers) => return (zone, .once servers)
  | none => return (.root, ← withResolver Resolver.configuredRota)

/-- Keeps what a `response` says. -/
def learn (response : Message) : Op Session Unit := do
  let _ ← onResolver (Resolver.onCache (Cache.addMessage response))

end Session

end NameResolution
