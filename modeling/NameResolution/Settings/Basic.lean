import NameResolution.Address
import NameResolution.Duration
import NameResolution.Limits
import NameResolution.Name.Text
import NameResolution.Settings.Preference

/-!
# Settings of a resolver

`Settings` say which servers to ask and how: the search list for relative names, and a number of
options with their limits. `Settings.finalize` makes sure that there is a server and a search list.
-/

namespace NameResolution

/-- How a `Resolver` goes about its work. -/
structure Settings where
  /-- The `servers` to ask. -/
  servers : List Endpoint
  /-- The names below which relative names are looked for. -/
  search : List Name
  /-- With this many dots a relative name is first taken as it is. -/
  ndots : Nat
  /-- How long to wait for one response. -/
  timeout : Duration
  /-- How often the list of servers is gone through. -/
  attempts : Nat
  /-- Whether each resolution starts with another server. -/
  rotate : Bool
  /-- How many queries one resolution may send. -/
  budget : Nat
  /-- Which families of addresses to look up. -/
  preference : Preference
  /-- The `port` of servers that were learned from referrals. -/
  port : UInt16
  deriving DecidableEq

namespace Settings

/-- The port that servers listen on unless said otherwise. -/
def serverPort : UInt16 := 53

/-- Dots of a name that is first taken as it is. -/
def ndotsLimits : Limits Nat := ⟨1, 0, 15⟩
/-- Time to wait for a response. -/
def timeoutLimits : Limits Duration := ⟨.ofSeconds 5, .ofMillis 1, .ofSeconds 60⟩
/-- Rounds through the list of servers. -/
def attemptsLimits : Limits Nat := ⟨2, 1, 5⟩
/-- Queries of one resolution. -/
def budgetLimits : Limits Nat := ⟨8, 1, 64⟩

/-- Settings without servers and with default options. -/
def new : Settings where
  servers := []
  search := []
  ndots := ndotsLimits.default
  timeout := timeoutLimits.default
  attempts := attemptsLimits.default
  rotate := false
  budget := budgetLimits.default
  preference := .ipv4Preferred
  port := serverPort

/-- Adds a `server` at the end. -/
def addServer (settings : Settings) (server : Endpoint) : Settings :=
  { settings with servers := settings.servers ++ [server] }

/-- Adds a `name` to the end of the search list, made absolute. -/
def pushSearch (settings : Settings) (name : Name) : Settings :=
  { settings with search := settings.search ++ [name.toAbsolute] }

/-- Sets the dots of a name that is first taken as it is, within `ndotsLimits`. -/
def setNdots (settings : Settings) (value : Nat) : Settings :=
  { settings with ndots := ndotsLimits.clamp value }

/-- Sets the time to wait for a response, within `timeoutLimits`. -/
def setTimeout (settings : Settings) (value : Duration) : Settings :=
  { settings with timeout := timeoutLimits.clamp value }

/-- Sets the rounds through the list of servers, within `attemptsLimits`. -/
def setAttempts (settings : Settings) (value : Nat) : Settings :=
  { settings with attempts := attemptsLimits.clamp value }

/-- Sets the queries of one resolution, within `budgetLimits`. -/
def setBudget (settings : Settings) (value : Nat) : Settings :=
  { settings with budget := budgetLimits.clamp value }

/-- Adds the server on this host if there is none, and the root to an empty `search` list. -/
def finalize (settings : Settings) : Settings :=
  { settings with
    servers := if settings.servers.isEmpty then [.v4 .loopback serverPort] else settings.servers
    search := if settings.search.isEmpty then [.root] else settings.search }

end Settings

end NameResolution
