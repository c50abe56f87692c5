import NameResolution.Address
import NameResolution.Message

/-!
# Security hooks

A `Hook` signs queries before they are sent and verifies responses that have been matched to their
queries. The default hook lets everything pass.
-/

namespace NameResolution

/-- How queries are signed and responses are verified. -/
structure Hook where
  /-- What is sent to a server in place of a query. -/
  sign : Endpoint → Octets → Octets
  /-- Whether a response from a server, which came as these octets, is acceptable. -/
  verify : Endpoint → Message → Octets → Bool

/-- The `Hook` that lets everything pass. -/
def Hook.default : Hook := ⟨fun _ octets => octets, fun _ _ _ => true⟩

end NameResolution
