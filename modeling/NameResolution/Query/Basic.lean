import NameResolution.Query.Registry

/-!
# Queries

A `Query` is one question put to one server. Making a query registers it. It is then begun, which
gives the octets to send, and goes through the states of `QueryState` as `Event`s happen to it until
it is settled. Its registration goes when it is settled or, before that, when it is dropped.

* `Query.begin`: the octets of the query. A query can be begun only once.
* `Query.happen`: what an event does to a query. The timer runs from the end of sending; a reply
  that is there when it runs out still counts.
* `Query.drop`: gives a query up.
-/

namespace NameResolution

/-- How far a query has come. -/
inductive QueryState
  | created
  | writing
  | awaiting
  | succeeded
  | timedOut
  | transportFailed
  | cancelled
  deriving DecidableEq, Repr

namespace QueryState

/-- The query is over: the state is none of `created`, `writing` and `awaiting`. -/
def isSettled : QueryState → Bool
  | created | writing | awaiting => false
  | succeeded | timedOut | transportFailed | cancelled => true

/-- The text of a `QueryState`. -/
def toText : QueryState → String
  | created => "Created"
  | writing => "Writing"
  | awaiting => "AwaitingResponse"
  | succeeded => "Succeeded"
  | timedOut => "TimedOut"
  | transportFailed => "TransportFailed"
  | cancelled => "Cancelled"

instance : ToString QueryState := ⟨toText⟩

end QueryState

/-- One `Question` put to one server. -/
structure Query where
  server : Endpoint
  id : UInt16
  serial : Nat
  question : Question
  state : QueryState
  begun : Bool

/-- What can happen to a query: it has been sent; it could not be sent; something may have become of
its registration; its time is over. -/
inductive Event
  | written
  | unsent (text : String)
  | roused
  | elapsed
  deriving DecidableEq

/-- The `Event` is the end of sending a query. -/
def Event.endsWriting : Event → Bool
  | written | unsent _ => true
  | roused | elapsed => false

/-- How a query ends. -/
abbrev Settlement := Except Failure Message

namespace Query

/-- The `Query` with a `Registration`. -/
def ofRegistration (entry : Registration) : Query where
  server := entry.server
  id := entry.id
  serial := entry.serial
  question := entry.question
  state := .created
  begun := false

/-- Registers a new `Query`. -/
def register (server : Endpoint) (question : Question) :
    StateM Registry (Except Failure Query) := do
  let registry ← get
  return (← Registry.add registry.nextStart server question).map ofRegistration

/-- The `octets` to send for a `query`. It counts as begun even if there are none. -/
def begin (hook : Hook) : Op Query Octets := do
  let query ← get
  if query.begun then throw .queryRunTwice
  set { query with begun := true }
  let octets ← Op.ofExcept (Message.query query.question query.id true).encode
  modify fun query => { query with state := .writing }
  return hook.sign query.server octets

/-- Undoes the registration of a `query`. -/
def release (query : Query) : StateM Registry Unit :=
  modify (·.release query.server query.id query.serial)

/-- Gives a `query` up. -/
def drop (query : Query) : StateM Registry Unit :=
  if query.state.isSettled then pure () else query.release

/-- Settles a `query`. -/
def settle (query : Query) (state : QueryState) (result : Settlement) :
    StateM Registry (Option Settlement × Query) := do
  query.release
  return (some result, { query with state := state })

/-- Looks what has become of a `query` that has been sent. -/
def check (query : Query) : StateM Registry (Option Settlement × Query) := do
  match (← get).fate query.serial with
  | .waiting => return (none, query)
  | .answered (.response message) => query.settle .succeeded (.ok message)
  | .answered .rejected => query.settle .transportFailed (.error .rejected)
  | .gone => query.settle .cancelled (.error .cancelled)

/-- What an `event` does to a `query`; with the result if this settles it. -/
def happen (query : Query) (event : Event) : StateM Registry (Option Settlement × Query) := do
  match query.state, event with
  | .writing, .written => check { query with state := .awaiting }
  | .writing, .unsent text => query.settle .transportFailed (.error (.transport text))
  | .awaiting, .roused => query.check
  | .awaiting, .elapsed =>
    match ← query.check with
    | (none, query) => query.settle .timedOut (.error .timeout)
    | settled => return settled
  | _, _ => return (none, query)

end Query

end NameResolution
