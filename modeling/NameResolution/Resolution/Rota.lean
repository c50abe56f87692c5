import NameResolution.Address

/-!
# Rotas

A `Rota` is the order in which servers are asked: round after round through a list, starting at some
place of the list.
-/

namespace NameResolution

/-- Servers to be asked in turn: the list, and the turns that are left, counted from its head. -/
structure Rota where
  servers : List Endpoint
  next : Nat
  stop : Nat

namespace Rota

/-- How many values a word of 64 bits has. -/
def wordCount : Nat := 0x10000000000000000

/-- A number of rounds through `servers`, starting at `offset`, which is counted around the list.
The turns are counted in words of 64 bits that wrap around, as they do where nothing checks for
overflows: a `count` that is read from a document is not limited, and turns are missing if there are
too many of them for a word. -/
def rounds (servers : List Endpoint) (offset count : Nat) : Rota where
  servers := servers
  next := offset % servers.length
  stop := (offset % servers.length + servers.length * count) % wordCount

/-- Each server once. There are fewer `servers` than a word can count. -/
def once (servers : List Endpoint) : Rota := ⟨servers, 0, servers.length⟩

/-- The server whose turn it is, and the `rota` after it. -/
def turn? (rota : Rota) : Option (Endpoint × Rota) :=
  if rota.next < rota.stop then
    rota.servers[rota.next % rota.servers.length]?.map fun server =>
      (server, { rota with next := rota.next + 1 })
  else none

end Rota

end NameResolution
