import NameResolution.RecordType

/-!
# Preferences for address families

A `Preference` says which families of addresses are looked up and in which order. The first one is
preferred: once its addresses are known, the others are not waited for.
-/

namespace NameResolution

/-- Which families of addresses are looked up, and which of them first. -/
inductive Preference
  | ipv4Only
  | ipv6Only
  | ipv4Preferred
  | ipv6Preferred
  deriving DecidableEq, Repr

namespace Preference

/-- The record `types` that are looked up, the preferred one first. -/
def types : Preference → List RecordType
  | ipv4Only => [.a]
  | ipv6Only => [.aaaa]
  | ipv4Preferred => [.a, .aaaa]
  | ipv6Preferred => [.aaaa, .a]

/-- The record type of the preferred family. -/
def preferred : Preference → RecordType
  | ipv4Only | ipv4Preferred => .a
  | ipv6Only | ipv6Preferred => .aaaa

/-- All preferences. -/
def all : List Preference := [ipv4Only, ipv6Only, ipv4Preferred, ipv6Preferred]

/-- The text of a `Preference`. -/
def toText : Preference → String
  | ipv4Only => "ipv4-only"
  | ipv6Only => "ipv6-only"
  | ipv4Preferred => "ipv4-preferred"
  | ipv6Preferred => "ipv6-preferred"

/-- The `Preference` that a `text` stands for. -/
def ofText? (text : String) : Option Preference :=
  all.find? fun preference => preference.toText == text

end Preference

end NameResolution
