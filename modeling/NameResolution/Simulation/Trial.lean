import NameResolution.Query.Basic
import NameResolution.Simulation.Script

/-!
# Trials of single queries

A `Trial` runs one query that never gets a response, in virtual time counted in milliseconds. It can
be abandoned. Before it begins, it can schedule a `Removal` of the registration of the query, or of
all registrations. Removals stay on the `Timeline` of the registry until their time has come and a
query waits, be it in the same trial or in a later one.

At each instant what concerns the query itself comes first, then the end of the trial, and then the
removals that are due.

* `Trial.scheduleRemovals`: what a trial schedules before it begins.
* `Trial.run`: runs a query.
* `Timeline.removeDue`: makes the removals that are due.
-/

namespace NameResolution

namespace Simulation

/-- What a `Removal` takes away: the registration for a `server` and an ID, or all registrations. -/
inductive Removal
  | one (server : Endpoint) (id : UInt16)
  | all

/-- The `registry` after a `Removal`. -/
def Removal.apply (registry : Registry) : Removal → Registry
  | one server id => registry.remove server id
  | all => registry.clear

/-! ## Registries in the course of time -/

/-- A `Registry` at a time, and the removals that are to come with the times at which they are
due. -/
structure Timeline where
  registry : Registry
  now : Nat
  removals : List (Nat × Removal)

namespace Timeline

/-- An empty registry at the beginning of time. -/
def empty : Timeline := ⟨.empty spread, 0, []⟩

/-- An operation on the `registry`. -/
def onRegistry {α : Type} (op : StateM Registry α) : StateM Timeline α := fun timeline =>
  let (result, registry) := op timeline.registry
  (result, { timeline with registry := registry })

/-- Schedules a `removal` after a `delay`. -/
def schedule (delay : Nat) (removal : Removal) : StateM Timeline Unit :=
  modify fun timeline => { timeline with
    removals := timeline.removals ++ [(timeline.now + delay, removal)] }

/-- Makes the removals that are due. -/
def removeDue : StateM Timeline Unit :=
  modify fun timeline => { timeline with
    registry := (timeline.removals.filter (·.1 ≤ timeline.now)).foldl
      (fun registry item => item.2.apply registry) timeline.registry
    removals := timeline.removals.filter (timeline.now < ·.1) }

end Timeline

/-! ## Trials -/

/-- What happens to a query in a `Trial`, and when, counted from its beginning. -/
structure Trial where
  /-- How long sending takes. -/
  writing : Nat
  /-- What is said about sending if it fails. -/
  fails : Option String
  /-- How long the query waits after it has been sent. -/
  timeout : Nat
  removeAt : Option Nat
  clearAt : Option Nat
  abandonAt : Option Nat

/-- How a trial ends: with the result of the query or without one, and when. -/
structure TrialEnd where
  result : Option Settlement
  elapsed : Nat
  query : Query

namespace Trial

/-- Schedules the removals of a `trial` of a `query`. -/
def scheduleRemovals (trial : Trial) (query : Query) : StateM Timeline Unit := do
  if let some delay := trial.removeAt then Timeline.schedule delay (.one query.server query.id)
  if let some delay := trial.clearAt then Timeline.schedule delay .all

/-- The `instants` at which something happens in a `trial` that begins at a given point of a
`timeline`. A removal that is due already is made at the first one. -/
def instants (trial : Trial) (timeline : Timeline) : List Nat :=
  let times := [0, trial.writing, trial.writing + trial.timeout] ++ trial.abandonAt.toList ++
    timeline.removals.map (·.1 - timeline.now)
  times.eraseDups.mergeSort (· ≤ ·)

/-- What is due for a query at an `instant`. -/
def eventsAt (trial : Trial) (instant : Nat) : List Event :=
  let sent : Event := match trial.fails with
    | some text => .unsent text
    | none => .written
  (if trial.writing ≤ instant then [sent] else []) ++
    (if trial.writing + trial.timeout ≤ instant then [.elapsed] else [])

/-- Lets `events` happen to a `query` until it is settled. -/
def happenAll (query : Query) : List Event → StateM Registry (Option Settlement × Query)
  | [] => return (none, query)
  | event :: events => do
    match ← query.happen event with
    | (none, query) => happenAll query events
    | settled => return settled

/-- Lets a query that was begun at the time `start` go through some instants. -/
def pass (trial : Trial) (start : Nat) (query : Query) : List Nat → StateM Timeline TrialEnd
  | [] => return ⟨none, (← get).now - start, query⟩
  | instant :: instants => do
    modify fun timeline => { timeline with now := start + instant }
    match ← Timeline.onRegistry (happenAll query (trial.eventsAt instant)) with
    | (some result, query) => return ⟨some result, instant, query⟩
    | (none, query) =>
      if trial.abandonAt = some instant then return ⟨none, instant, query⟩
      else
        Timeline.removeDue
        match ← Timeline.onRegistry (query.happen .roused) with
        | (some result, query) => return ⟨some result, instant, query⟩
        | (none, query) => trial.pass start query instants

/-- Runs a `query` that has been begun. -/
def run (trial : Trial) (query : Query) : StateM Timeline TrialEnd := do
  let timeline ← get
  trial.pass timeline.now query (trial.instants timeline)

end Trial

end Simulation

end NameResolution
