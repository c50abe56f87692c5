import NameResolution.Resolution.Session

/-!
# Inquiries

An `Inquiry` is a name and a type that servers are asked for in turn. A server that fails makes way
for the next one; the last failure is the one that counts if all servers fail.

* `Inquiry.askNext`: the query to the server whose turn it is.
* `Inquiry.evaluate`: what the end of a query means: a response to go by, another query, or failure.
-/

namespace NameResolution

/-- What a pass is asking for: the name it has come to, the servers in turn, the zone that they
serve, and the last failure that concerned one server only. -/
structure Inquiry where
  type : RecordType
  depth : Nat
  name : Name
  rota : Rota
  zone : Name
  lastFailure : Option Failure

/-- An `Inquiry` and its query under way. -/
structure Asked where
  inquiry : Inquiry
  query : Query

/-- What the end of a query means for its inquiry: there is a `response` to go by, the next server
is asked, or the inquiry has failed. -/
inductive Evaluation
  | response (response : Message)
  | again (asked : Asked)
  | failed (failure : Failure)

namespace Inquiry

/-- Puts an `inquiry` to a `server`. -/
def askServer (inquiry : Inquiry) (server : Endpoint) : Op Session (Except Failure Asked) := do
  return (← Session.ask server inquiry.name inquiry.type).map fun query => ⟨inquiry, query⟩

/-- Puts an `inquiry` to the server whose turn it is. -/
def askNext (inquiry : Inquiry) : Op Session (Except Failure Asked) :=
  match inquiry.rota.turn? with
  | some (server, rota) => { inquiry with rota := rota : Inquiry }.askServer server
  | none => return .error (inquiry.lastFailure.getD .noServers)

/-- Goes on with the next server (`askNext`) after one has failed. -/
def retry (inquiry : Inquiry) (failure : Failure) : Op Session (Except Failure Asked) :=
  { inquiry with lastFailure := some failure : Inquiry }.askNext

/-- The result of a query, where a server that reports a `failure` counts as having failed. -/
def usable : Settlement → Settlement
  | .ok response =>
    if response.rcode = .noError ∨ response.rcode = .nxDomain then .ok response
    else .error (.serverFailure response.rcode)
  | .error failure => .error failure

/-- What the end of a query means. A `response` to go by is kept in the cache. -/
def evaluate (inquiry : Inquiry) (result : Settlement) : Op Session Evaluation := do
  match usable result with
  | .ok response =>
    Session.learn response
    return .response response
  | .error failure =>
    if failure.isRetryable then
      match ← inquiry.retry failure with
      | .ok asked => return .again asked
      | .error failure => return .failed failure
    else return .failed failure

end Inquiry

end NameResolution
