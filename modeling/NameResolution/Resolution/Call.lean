import NameResolution.Resolution.HostLookup

/-!
# Calls

A `Call` is one request to a resolver under way. It keeps a list of what it has to attend to, in
the order in which that came up, and takes it up step by step. When there is nothing left to attend
to, it waits for events of its queries.

* `Call.notify`: an event of a query, to be attended to.
* `Call.step`: the next step of a call, unless it has to wait.
* `Call.result?`: the result of a call that is over.
-/

namespace NameResolution

/-- What a resolver is asked for: the addresses of a `host`, or the response to a single
`question`. -/
inductive Request
  | host (name : String)
  | question (name : Name) (type : RecordType)
  deriving DecidableEq

/-- What a resolver gives back. -/
inductive Found
  | hosts (hosts : FoundHosts)
  | response (response : Message)

/-- What a call is doing. -/
inductive Activity
  | requested
  | racing (lookup : HostLookup)
  | asking (asked : Asked)
  | over (result : Except Failure Found)

/-- What a call has to attend to: its beginning, the start of the pass for a `type`, or an `event`
of a query. -/
inductive Matter
  | begin
  | start (type : RecordType)
  | event (serial : Nat) (event : Event)

/-- One `Request` under way. -/
structure Call where
  request : Request
  allowance : Allowance
  activity : Activity
  matters : List Matter

namespace Call

/-- A `Call` that has not begun. -/
def new (request : Request) (budget : Nat) : Call :=
  ⟨request, .full budget, .requested, [.begin]⟩

/-- An `event` of a query, to be attended to. -/
def notify (call : Call) (serial : Nat) (event : Event) : Call :=
  { call with matters := call.matters ++ [.event serial event] }

/-- The serial numbers of the queries that the `call` waits for. -/
def serials (call : Call) : List Nat :=
  match call.activity with
  | .racing lookup => lookup.race.serials
  | .asking asked => [asked.query.serial]
  | _ => []

/-- Goes on with an `activity` that an operation of the `session` leads to. -/
def goOn (call : Call) (op : Op Session Activity) : Op Resolver Call := fun resolver =>
  let (activity, session) := op ⟨resolver, call.allowance⟩
  (activity.map fun activity => { call with
    activity := activity
    allowance := session.allowance }, session.resolver)

/-- A host `lookup` going on. -/
def ofHost : HostProgress → Activity
  | .racing lookup => .racing lookup
  | .finished result => .over (result.map .hosts)

/-- A single question that is `asked`, or that is over since it could not be. -/
def ofInquiry : Except Failure Asked → Activity
  | .ok asked => .asking asked
  | .error failure => .over (.error failure)

/-- The passes of a new race are put into the `matters` of the call, to be started one after the
other. -/
def enterRace (call : Call) : Call :=
  match call.activity with
  | .racing lookup => { call with matters := lookup.race.types.map .start }
  | _ => call

/-- Puts a single question to the configured servers (`configuredRota`). -/
def beginQuestion (name : Name) (type : RecordType) : Op Session Activity := do
  let rota ← Session.withResolver Resolver.configuredRota
  return ofInquiry (← Inquiry.askNext ⟨type, 0, name.toAbsolute, rota, .root, none⟩)

/-- Goes on with a single question after an `event` of its `query`. -/
def resumeQuestion (asked : Asked) (event : Event) : Op Session Activity := do
  match ← Session.withResolver (Resolver.onRegistry (asked.query.happen event)) with
  | (none, query) => return .asking { asked with query := query }
  | (some result, _) =>
    match ← asked.inquiry.evaluate result with
    | .response response => return .over (.ok (.response response))
    | .again asked => return .asking asked
    | .failed failure => return .over (.error failure)

/-- Attends to a `matter`. -/
def attend (call : Call) (matter : Matter) : Op Resolver Call := do
  match call.activity, matter with
  | .requested, .begin =>
    match call.request with
    | .host name => return (← call.goOn (ofHost <$> HostLookup.begin name)).enterRace
    | .question name type => call.goOn (beginQuestion name type)
  | .racing lookup, .start type =>
    call.goOn do return .racing { lookup with race := ← lookup.race.startRun type }
  | .racing lookup, .event serial event =>
    call.goOn do return .racing { lookup with race := ← lookup.race.resumeRun serial event }
  | .asking asked, .event serial event =>
    if asked.query.serial = serial then call.goOn (resumeQuestion asked event) else return call
  | _, _ => return call

/-- Closes the `race` of a `call` if it is over. -/
def closeRace (call : Call) : Op Resolver (Option Call) := do
  match call.activity with
  | .racing lookup =>
    if lookup.race.AllEnded ∨ lookup.race.isWon then
      return some (← call.goOn (ofHost <$> lookup.conclude)).enterRace
    else return none
  | _ => return none

/-- The next `step` of a `call`: it attends to the first `matter`, or, when there is nothing left to
attend to, closes its race. Nothing if it has to wait. -/
def step (call : Call) : Op Resolver (Option Call) := do
  match call.matters with
  | matter :: matters => return some (← attend { call with matters := matters } matter)
  | [] => call.closeRace

/-- The `call` is over. -/
def isOver (call : Call) : Bool :=
  match call.activity with
  | .over _ => true
  | _ => false

/-- Gives a `call` up. -/
def drop (call : Call) : StateM Resolver Unit :=
  match call.activity with
  | .racing lookup => lookup.race.drop
  | .asking asked => Resolver.onRegistry asked.query.drop
  | _ => pure ()

/-- The text of what the `call` asks for. -/
def hostname (call : Call) : String :=
  match call.request with
  | .host name => name
  | .question name _ => name.toText

/-- The result of a `call` that is over. -/
def result? (call : Call) : Option (Except ResolveError Found) :=
  match call.activity with
  | .over result => some (result.mapError fun failure =>
      ⟨call.hostname, call.allowance.budget.used, call.allowance.budget.total, failure⟩)
  | _ => none

end Call

end NameResolution
