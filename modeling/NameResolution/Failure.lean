import NameResolution.Label
import NameResolution.Octets
import NameResolution.ResponseCode

/-!
# Failures

A `Failure` is why a name could not be resolved. Some failures only concern the server that was
asked, so that another one may do better; all others end the matter.

* `Failure.isRetryable`: another server may do better.
* `Failure.message`, `Failure.causes`: the text of a failure, and the texts of what caused it.
-/

namespace NameResolution

/-- Why a `name` could not be resolved. -/
inductive Failure
  | malformed (error : DecodeError)
  | timeout
  | transport (text : String)
  | serverFailure (rcode : ResponseCode)
  | rejected
  | nxDomain
  | noMatchingRecord
  | budgetExhausted
  | searchExhausted (last : Failure)
  | name (error : NameError)
  | unknownQuery
  | noServers
  | tooManyOutstanding
  | cancelled
  deriving DecidableEq

namespace Failure

/-- The `Failure` only concerns the server that was asked. -/
def isRetryable : Failure → Bool
  | timeout | transport _ | serverFailure _ | rejected => true
  | _ => false

/-- The `text` of a `Failure`. -/
def message : Failure → String
  | malformed error => "malformed message: " ++ error.message
  | timeout => "query timed out"
  | transport text => "transport error: " ++ text
  | serverFailure rcode => "server responded with " ++ rcode.toText
  | rejected => "response rejected"
  | nxDomain => "domain name does not exist"
  | noMatchingRecord => "no matching record type found"
  | budgetExhausted => "query budget exhausted"
  | searchExhausted last => "search domain query failed: " ++ last.message
  | name error => "invalid name: " ++ error.message
  | unknownQuery => "unknown query ID"
  | noServers => "no servers available"
  | tooManyOutstanding => "too many outstanding queries"
  | cancelled => "resolution cancelled"

/-- The texts of what caused a `Failure`, the nearest cause first. -/
def causes : Failure → List String
  | malformed error => [error.message]
  | transport text => [text]
  | searchExhausted last => last.message :: last.causes
  | name error => [error.message]
  | _ => []

end Failure

/-- A failed call into a resolver: what was asked for, how many queries it took, and why it
failed. -/
structure ResolveError where
  hostname : String
  attempts : Nat
  budget : Nat
  failure : Failure

/-- The text of a `ResolveError`. -/
def ResolveError.message (error : ResolveError) : String :=
  s!"failed to resolve '{error.hostname}' after {error.attempts} of {error.budget} queries: " ++
    error.failure.message

end NameResolution
