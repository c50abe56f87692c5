import NameResolution.Failure
import NameResolution.Query.Hook

/-!
# The registry of outstanding queries

A query that waits for its response is registered under the address of its server and its message
ID, of which only one can be in use at a time. Every registration also gets a serial number that is
never used again.

* `Registry.add`: registers a query under a free ID.
* `Registry.deliver`: hands a message from the network to the query it answers.
* `Registry.fate`: what has become of a query.
* `Registry.release`: undoes a registration, which a query only does with its own one.
* `Registry.remove`, `Registry.clear`: cancel queries.
-/

namespace NameResolution

/-- A `Query` that waits for its response. -/
structure Registration where
  server : Endpoint
  id : UInt16
  serial : Nat
  question : Question
  deriving DecidableEq

/-- What a query gets handed: a `response`, or that the hook did not accept it. -/
inductive Reply
  | response (message : Message)
  | rejected

/-- The queries that wait for their responses, and the replies that were handed to queries but not
yet taken up, by serial number. -/
structure Registry where
  outstanding : List Registration
  replies : List (Nat × Reply)
  lastSerial : Nat
  /-- The random values at which the searches for IDs start, in the order of the registrations. -/
  starts : Nat → UInt16

/-- What happens to a message that was delivered without fault: it does not answer the question of
the query, or it settles the query. -/
inductive Delivery
  | ignored
  | settled (serial : Nat) (accepted : Bool)

/-- What has become of a registered query. -/
inductive Fate
  | waiting
  | answered (reply : Reply)
  | gone

namespace Registry

/-- No queries. The random values are all zero unless `starts` gives other ones. -/
def empty (starts : Nat → UInt16 := fun _ => 0) : Registry := ⟨[], [], 0, starts⟩

/-- How many queries wait. -/
def size (registry : Registry) : Nat := registry.outstanding.length

/-- The query registered for a `server` and an ID. -/
def find? (registry : Registry) (server : Endpoint) (id : UInt16) : Option Registration :=
  registry.outstanding.find? fun entry => entry.server = server ∧ entry.id = id

/-! ## Registering -/

/-- The first ID from `id` on, going round through at most `count` IDs, that is not taken. -/
def probe (taken : UInt16 → Bool) : (count : Nat) → (id : UInt16) → Option UInt16
  | 0, _ => none
  | count + 1, id => if taken id then probe taken count (id + 1) else some id

/-- How many IDs of 16 bits there are. -/
def idCount : Nat := 65536

/-- Registers a query under the first free ID from `start` on. -/
def add (start : UInt16) (server : Endpoint) (question : Question) :
    StateM Registry (Except Failure Registration) := do
  let registry ← get
  match probe (fun id => (registry.find? server id).isSome) idCount start with
  | none => return .error .tooManyOutstanding
  | some id =>
    let entry : Registration := ⟨server, id, registry.lastSerial + 1, question⟩
    set { registry with
      outstanding := entry :: registry.outstanding
      lastSerial := entry.serial }
    return .ok entry

/-- The random value at which the search for the next ID starts. If `add` finds none, the value is
left to the search after that: no ID is free then wherever a search starts. -/
def nextStart (registry : Registry) : UInt16 := registry.starts registry.lastSerial

/-! ## Unregistering -/

/-- Undoes a registration if it still is the one with this `serial` number, and drops a reply that
was not taken up. -/
def release (registry : Registry) (server : Endpoint) (id : UInt16) (serial : Nat) : Registry :=
  { registry with
    outstanding := registry.outstanding.filter fun entry =>
      ¬(entry.server = server ∧ entry.id = id ∧ entry.serial = serial)
    replies := registry.replies.filter (·.1 ≠ serial) }

/-- Removes the registration for a `server` and an ID. -/
def remove (registry : Registry) (server : Endpoint) (id : UInt16) : Registry :=
  { registry with
    outstanding := registry.outstanding.filter fun entry =>
      ¬(entry.server = server ∧ entry.id = id) }

/-- Removes all registrations. -/
def clear (registry : Registry) : Registry := { registry with outstanding := [] }

/-! ## Delivering -/

/-- A response in `octets`; whatever else it is, it is malformed. -/
def readResponse (octets : Octets) : Except Failure Message :=
  match Message.decode octets with
  | .error error => .error (.malformed error)
  | .ok message =>
    match message.checkResponse with
    | .error fault => .error (.malformed (.form fault))
    | .ok _ => .ok message

/-- Hands a message that came from `source` to the query that is registered for `source` and the ID
of the message, provided that it answers the question of that query. -/
def deliver (hook : Hook) (source : Endpoint) (octets : Octets) :
    StateM Registry (Except Failure Delivery) := do
  match readResponse octets with
  | .error failure => return .error failure
  | .ok message =>
    let registry ← get
    match registry.find? source message.header.id with
    | none => return .error .unknownQuery
    | some entry =>
      if message.IsAnswerTo entry.question then
        let accepted := hook.verify source message octets
        let reply := if accepted then Reply.response message else .rejected
        set { registry.remove source message.header.id with
          replies := (entry.serial, reply) :: registry.replies }
        return .ok (.settled entry.serial accepted)
      else return .ok .ignored

/-- What has become of the query with a `serial` number. -/
def fate (registry : Registry) (serial : Nat) : Fate :=
  match registry.replies.lookup serial with
  | some reply => .answered reply
  | none => if registry.outstanding.any (·.serial = serial) then .waiting else .gone

end Registry

end NameResolution
