import NameResolution.Resolution.Call
import NameResolution.Simulation.Script

/-!
# A world of virtual time

A `World` runs calls of a resolver against scripted servers. Time is counted in milliseconds and
only moves when everything waits; it then jumps to the next instant at which something is due.

At each instant, what concerns the calls comes first: what is due for them is brought to their
notice in the order in which it was scheduled, and all calls go on, in their order, until they
wait. Then the jobs that are due are done, in the order in which they were given, and the calls go
on again. A job whose time has come while no call waited is done as soon as one waits.

* `World.runCalls`: lets all calls go on until they wait.
* `World.run`: lets time pass until the calls are over or a given time has come.
* `World.notes`: what was sent and what arrived.
-/

namespace NameResolution

namespace Simulation

/-- Something that is due for a query: an `Event`, before which messages may arrive. -/
structure Alarm where
  due : Nat
  serial : Nat
  event : Event

/-- What is done beside the calls: a message arrives, or the resolver is closed. -/
inductive Task
  | arrival (source : Endpoint) (octets : Octets)
  | closing

/-- A `Task` that is to be done at a time. -/
structure Job where
  due : Nat
  task : Task

/-- Messages that will be sent at the end of writing a query. -/
structure Writing where
  serial : Nat
  server : Endpoint
  query : Message
  emissions : List Emission

/-- What has been seen in a `World`. -/
inductive Note
  | sent (server : Endpoint) (question : Question) (octets : Octets)
  | arrived (source : Endpoint) (octets : Octets) (result : Except Failure Delivery)

/-- Calls of a resolver, scripted servers, and what is on its way between them. -/
structure World where
  resolver : Resolver
  script : Script
  now : Nat
  calls : List Call
  alarms : List Alarm
  writings : List Writing
  jobs : List Job
  notes : List Note

namespace World

/-- A world in which nothing happens yet. The `resolver` takes the IDs of its queries as they are
`spread`. -/
def new (resolver : Resolver) (script : Script) : World where
  resolver := { resolver with registry := { resolver.registry with starts := spread } }
  script := script
  now := 0
  calls := []
  alarms := []
  writings := []
  jobs := []
  notes := []

/-- An operation on the `Resolver`. -/
def onResolver {α : Type} (op : Op Resolver α) : Op World α :=
  Op.onPart World.resolver (fun world resolver => { world with resolver := resolver }) op

/-- Adds to what has been seen. -/
def note (note : Note) : Op World Unit :=
  modify fun world => { world with notes := world.notes ++ [note] }

/-- Gives a job, to be done after a `delay`. -/
def giveJob (delay : Nat) (task : Task) : Op World Unit :=
  modify fun world => { world with jobs := world.jobs ++ [⟨world.now + delay, task⟩] }

/-! ## Sending and receiving -/

/-- Brings an `event` to the notice of the call that waits for it. -/
def notify (serial : Nat) (event : Event) : Op World Unit :=
  modify fun world => { world with
    calls := world.calls.map fun call =>
      if call.serials.contains serial then call.notify serial event else call }

/-- Lets a message arrive. -/
def receive (source : Endpoint) (octets : Octets) : Op World (Except Failure Delivery) := do
  let result ← onResolver (ExceptT.lift (Resolver.deliver source octets))
  note (.arrived source octets result)
  if let .ok (.settled serial _) := result then notify serial .roused
  return result

/-- Sends a `Message` of a `server`: it arrives at once or later. -/
def emit (server : Endpoint) (query : Message) (emission : Emission) : Op World Unit := do
  let source := emission.source.getD server
  let octets ← Op.ofExcept (emission.octets query)
  match emission.delay with
  | none => let _ ← receive source octets
  | some delay => giveJob delay (.arrival source octets)

/-- What is said about a query that could not be sent. -/
def refusal : String := "connection refused"

/-- Schedules an `event` of a query. -/
def schedule (delay serial : Nat) (event : Event) : Op World Unit :=
  modify fun world => { world with alarms := world.alarms ++ [⟨world.now + delay, serial, event⟩] }

/-- Treats a `query` by a `rule`. The result is the `event` that ends sending, if it ends at
once. -/
def treat (datagram : Datagram) (query : Message) (rule : Rule) : Op World (Option Event) := do
  let event := if rule.fails then Event.unsent refusal else .written
  let emissions := if rule.fails then [] else rule.emissions
  if rule.writing = 0 then
    emissions.forM (emit datagram.server query)
    return some event
  else
    modify fun world => { world with
      writings := ⟨datagram.serial, datagram.server, query, emissions⟩ :: world.writings }
    schedule rule.writing datagram.serial event
    return none

/-- Sends a `query`. The result is the `Event` that ends sending, if it ends at once. -/
def transmit (datagram : Datagram) : Op World (Option Event) := do
  match Message.decode datagram.octets with
  | .error _ => return some .written
  | .ok query =>
    match query.questions with
    | [] => return some .written
    | question :: _ =>
      note (.sent datagram.server question datagram.octets)
      let world ← get
      let (rule, script) := world.script.serve datagram.server question
      set { world with script := script }
      match rule with
      | some rule => treat datagram query rule
      | none => return some .written

/-- Sends the messages that were held back until the end of writing a `query`, if an `event` is
that. -/
def finishWriting (serial : Nat) (event : Event) : Op World Unit := do
  if event.endsWriting then
    let world ← get
    set { world with writings := world.writings.filter (·.serial ≠ serial) }
    for writing in world.writings.filter (·.serial = serial) do
      writing.emissions.forM (emit writing.server writing.query)

/-! ## Letting calls go on -/

/-- Puts a `call` in its place. -/
def putCall (index : Nat) (call : Call) : Op World Unit :=
  modify fun world => { world with calls := world.calls.set index call }

/-- Lets a `call` attend to an `event`. Once a query is sent, its timer starts. -/
def attend (index serial : Nat) (event : Event) : Op World Unit := do
  if let some call := (← get).calls[index]? then
    let call ← onResolver (call.attend (.event serial event))
    putCall index call
    if event = .written ∧ call.serials.contains serial then
      schedule (← get).resolver.settings.timeout.millisUp serial .elapsed

/-- The query that is to be sent next. -/
def takeDatagram : Op World (Option Datagram) := do
  let world ← get
  match world.resolver.outbox with
  | [] => return none
  | datagram :: rest =>
    set { world with resolver := { world.resolver with outbox := rest } }
    return some datagram

/-- Lets a `call` take one `step`; says whether there was one to take. A query that the call wants
to send is sent first. -/
def stepCall (index : Nat) : Op World Bool := do
  match ← takeDatagram with
  | some datagram =>
    if let some event := ← transmit datagram then attend index datagram.serial event
    return true
  | none =>
    match (← get).calls[index]? with
    | none => return false
    | some call =>
      match call.matters with
      | .event serial event :: matters =>
        putCall index { call with matters := matters }
        finishWriting serial event
        attend index serial event
        return true
      | _ =>
        match ← onResolver call.step with
        | some call =>
          putCall index call
          return true
        | none => return false

/-- Lets a call go on until it waits, for a number of `steps`. -/
def runCall (index : Nat) : (steps : Nat) → Op World Unit
  | 0 => return
  | steps + 1 => do
    if ← stepCall index then runCall index steps

/-- More steps than a call can take at one instant, and more instants than a run can have. -/
def patience : Nat := 1000000

/-- Lets all `calls` go on until they wait. -/
def runCalls : Op World Unit := do
  for index in List.range (← get).calls.length do
    runCall index patience

/-! ## Jobs -/

/-- Closes the `resolver`; all `calls` notice. -/
def close : Op World Unit := do
  modify fun world => { world with resolver := world.resolver.close }
  for serial in (← get).calls.flatMap Call.serials do
    notify serial .roused

/-- Does a `Task`. -/
def perform : Task → Op World Unit
  | .arrival source octets => do let _ ← receive source octets
  | .closing => close

/-- Does the `jobs` that are due; says whether there were any. -/
def work : Op World Bool := do
  let world ← get
  let due := world.jobs.filter (·.due ≤ world.now)
  set { world with jobs := world.jobs.filter (world.now < ·.due) }
  for job in due do
    perform job.task
  return !due.isEmpty

/-! ## Letting time pass -/

/-- Brings what is due to the notice of the calls. -/
def ring : Op World Unit := do
  let world ← get
  set { world with alarms := world.alarms.filter (world.now < ·.due) }
  for alarm in world.alarms.filter (·.due ≤ world.now) do
    notify alarm.serial alarm.event

/-- The next instant at which something is due in the `world`, the `limit` included. -/
def nextInstant (world : World) (limit : Option Nat) : Option Nat :=
  (limit.toList ++ world.alarms.map (·.due) ++ world.jobs.map (·.due)).min?

/-- The `calls` are over; where there are none, there is nothing to wait for but the time. -/
def isOver (world : World) : Bool := !world.calls.isEmpty && world.calls.all Call.isOver

/-- Lets time pass until the calls are over or the time `limit` has come. -/
def runFor (limit : Option Nat) : (instants : Nat) → Op World Unit
  | 0 => return
  | instants + 1 => do
    ring
    runCalls
    let world ← get
    if world.isOver ∨ limit.any (· ≤ world.now) then return
    if ← work then runFor limit instants
    else if let some instant := world.nextInstant limit then
      set { world with now := max world.now instant }
      runFor limit instants

/-- Lets time pass until the calls are over or the time `limit` has come. -/
def run (limit : Option Nat) : Op World Unit := runFor limit patience

/-! ## Whole requests -/

/-- Starts a call for each of the `requests`. -/
def start (requests : List Request) : Op World Unit :=
  modify fun world => { world with
    calls := requests.map fun request => .new request world.resolver.settings.budget }

/-- Gives up all calls that are not over. -/
def abandon (world : World) : World :=
  let resolver := world.calls.foldl (fun resolver call => (call.drop.run resolver).2) world.resolver
  { world with
    resolver := { resolver with outbox := [] }
    calls := []
    alarms := []
    writings := [] }

/-- The `results` of calls. -/
def results (world : World) : List (Option (Except ResolveError Found)) :=
  world.calls.map Call.result?

/-- Runs the operation `op` and gives up all calls after it, also if it is refused. -/
def abandoning {α : Type} (op : Op World α) : Op World α := do
  try
    let result ← op
    modify abandon
    return result
  catch misuse =>
    modify abandon
    throw misuse

/-- Runs requests at the same time. Those that are not over after the time `limit` are given up and
have no result. -/
def request (requests : List Request) (limit : Option Nat) :
    Op World (List (Option (Except ResolveError Found))) := abandoning do
  if requests.isEmpty then return []
  start requests
  let now := (← get).now
  run (limit.map (now + ·))
  return (← get).results

/-- Runs `requests`, and has the resolver closed after a `delay`, even if they are over by then. -/
def requestAndClose (requests : List Request) (delay : Nat) :
    Op World (List (Option (Except ResolveError Found))) := do
  giveJob delay .closing
  request requests none

/-- Lets time pass. -/
def sleep (time : Nat) : Op World Unit := do
  run (some ((← get).now + time))

end World

end Simulation

end NameResolution
