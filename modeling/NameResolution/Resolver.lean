import NameResolution.Cache.Delegations
import NameResolution.Cache.Response
import NameResolution.HostTable
import NameResolution.Query.Basic
import NameResolution.Resolution.Rota
import NameResolution.Settings.Basic

/-!
# Resolvers

A `Resolver` holds all that calls share: its settings and host table, what it has learned, and the
queries that are under way. It does no input and output itself: queries to be sent gather in its
outbox, and messages that arrive are delivered to it.

* `Resolver.deliver`: takes a message from the network.
* `Resolver.configuredRota`: the configured servers in turn.
* `Resolver.close`: cancels all queries and forgets everything, for good.
-/

namespace NameResolution

/-- A query on its way to a server, as octets. -/
structure Datagram where
  server : Endpoint
  octets : Octets
  serial : Nat

/-- What all calls share. -/
structure Resolver where
  settings : Settings
  hosts : HostTable
  hook : Hook
  cache : Cache
  delegations : Delegations
  registry : Registry
  /-- How many times the configured servers were used, if they rotate. A counter of 64 bits would
  begin again at zero after `2 ^ 64` times, which is not modelled. -/
  rotation : Nat
  closed : Bool
  /-- The time by which the caches go. -/
  now : Duration
  /-- The queries that are to be sent next. -/
  outbox : List Datagram

namespace Resolver

/-- A resolver that has learned nothing yet. The searches for the IDs of its queries start at the
random values `starts`. -/
def new (settings : Settings) (hosts : HostTable) (hook : Hook) (limits : CacheSettings)
    (starts : Nat → UInt16 := fun _ => 0) : Resolver where
  settings := settings
  hosts := hosts
  hook := hook
  cache := .empty limits
  delegations := .empty limits
  registry := .empty starts
  rotation := 0
  closed := false
  now := .zero
  outbox := []

/-- An operation on the `registry`. -/
def onRegistry {α : Type} (op : StateM Registry α) : StateM Resolver α := fun resolver =>
  let (result, registry) := op resolver.registry
  (result, { resolver with registry := registry })

/-- An operation on the `cache` at the time of the `resolver`. -/
def onCache {α : Type} (op : Duration → Op Cache α) : Op Resolver α := fun resolver =>
  let (result, cache) := (op resolver.now).runOn resolver.cache
  (result, { resolver with cache := cache })

/-- An operation on the `delegations` at the time of the `resolver`. -/
def onDelegations {α : Type} (op : Duration → Op Delegations α) : Op Resolver α := fun resolver =>
  let (result, delegations) := (op resolver.now).runOn resolver.delegations
  (result, { resolver with delegations := delegations })

/-- Takes a message from the network, which came from `source`. -/
def deliver (source : Endpoint) (octets : Octets) :
    StateM Resolver (Except Failure Delivery) := do
  onRegistry (Registry.deliver (← get).hook source octets)

/-- The configured `servers` in turn. If they `rotate`, the next time starts one server later. -/
def configuredRota : StateM Resolver Rota := do
  let resolver ← get
  let settings := resolver.settings
  if settings.rotate then
    set { resolver with rotation := resolver.rotation + 1 }
    return .rounds settings.servers resolver.rotation settings.attempts
  else return .rounds settings.servers 0 settings.attempts

/-- Cancels all queries and forgets everything, unless that has been done already. -/
def close (resolver : Resolver) : Resolver :=
  if resolver.closed then resolver
  else { resolver with
    closed := true
    registry := resolver.registry.clear
    cache := resolver.cache.clear
    delegations := resolver.delegations.clear }

end Resolver

end NameResolution
