import NameResolution.Simulation.Trial

/-!
# Benches of queries

A `Bench` keeps queries of one registry under keys, so that they can be tried out one after the
other on one timeline. A query that is replaced or taken away is given up.

* `Bench.put`: makes a query and keeps it.
* `Bench.perform`: runs a query that is kept.
* `Bench.places`: the servers and IDs of all queries that are kept.
-/

namespace NameResolution

namespace Simulation

/-- A `Registry` in the course of time, and queries that are kept under keys. -/
structure Bench where
  timeline : Timeline
  kept : List (String × Query)

namespace Bench

/-- No queries. -/
def empty : Bench := ⟨.empty, []⟩

/-- The `Query` under a `key`. -/
def query? (bench : Bench) (key : String) : Option Query := bench.kept.lookup key

/-- The `registry`. -/
def registry (bench : Bench) : Registry := bench.timeline.registry

/-- An operation on the `timeline`. -/
def onTimeline {α : Type} (op : StateM Timeline α) : StateM Bench α := fun bench =>
  let (result, timeline) := op bench.timeline
  (result, { bench with timeline := timeline })

/-- An operation on the `Registry`. -/
def onRegistry {α : Type} (op : StateM Registry α) : StateM Bench α :=
  onTimeline (Timeline.onRegistry op)

/-- Keeps a `query` in the place of the one under the same `key`. -/
def keep (key : String) (query : Query) : StateM Bench Unit :=
  modify fun bench => { bench with kept := (key, query) :: bench.kept.filter (·.1 ≠ key) }

/-- Gives up the `query` under a `key`; says whether there was one. -/
def drop (key : String) : StateM Bench Bool := do
  match (← get).query? key with
  | some query =>
    onRegistry query.drop
    modify fun bench => { bench with kept := bench.kept.filter (·.1 ≠ key) }
    return true
  | none => return false

/-- The servers and IDs of all queries of the `bench`. -/
def places (bench : Bench) : List (Endpoint × UInt16) :=
  bench.kept.map fun (_, query) => (query.server, query.id)

/-- Makes a `query` and keeps it. Says whether another one that is kept has the same `server` and
ID. -/
def put (key : String) (server : Endpoint) (question : Question) :
    StateM Bench (Except Failure Bool) := do
  match ← onRegistry (Query.register server question) with
  | .error failure => return .error failure
  | .ok query =>
    let places := (← get).places
    let _ ← drop key
    keep key query
    return .ok (places.contains (query.server, query.id))

/-- Makes `count` queries under keys that are numbered behind `stem`. -/
def fill (stem : String) (server : Endpoint) (question : Question) :
    (count : Nat) → StateM Bench (Except Failure Unit)
  | 0 => return .ok ()
  | count + 1 => do
    match ← fill stem server question count with
    | .error failure => return .error failure
    | .ok _ => return (← put (stem ++ Text.decimal count) server question).map fun _ => ()

/-- The `Question` that is registered for a `server` under the ID of a `query`. -/
def registered? (bench : Bench) (server : Endpoint) (query : Query) : Option Question :=
  (bench.registry.find? server query.id).map (·.question)

/-- Removes the registration for the `server` and ID of a `query`; says whether there was one. -/
def remove (query : Query) : StateM Bench Bool := do
  let present := ((← get).registered? query.server query).isSome
  onRegistry (modify (·.remove query.server query.id))
  return present

/-- Removes all registrations. -/
def clear : StateM Bench Unit := onRegistry (modify Registry.clear)

/-- Runs a `query` that is kept, with a `hook` for signing. The result has the `octets` that were
sent. The removals of the `trial` are scheduled even if the query cannot be begun. -/
def perform (key : String) (query : Query) (hook : Hook) (trial : Trial) :
    Op Bench (Octets × TrialEnd) := do
  ExceptT.lift (onTimeline (trial.scheduleRemovals query))
  let (octets, query) := (Query.begin hook).runOn query
  ExceptT.lift (keep key query)
  let octets ← Op.ofExcept octets
  let ended ← ExceptT.lift (onTimeline (trial.run query))
  ExceptT.lift (keep key ended.query)
  return (octets, ended)

end Bench

end Simulation

end NameResolution
