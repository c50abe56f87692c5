import NameResolution.Message

/-!
# Scripted servers

A `Script` says how servers treat queries. Each server has a list of rules. The first rule that
fits a query and is not used up decides what becomes of the query; without one the query is lost.

* `Script.serve`: uses the rule for a query.
* `Emission.octets`: a message that a rule sends, for a given query.
* `spread`: where the searches for the IDs of queries start.
-/

namespace NameResolution

namespace Simulation

/-- Values in the place of random ones, at which the searches for IDs start. As the factor is odd,
they run through all IDs before they return to one. -/
def spread (count : Nat) : UInt16 := UInt16.ofNat (count * 40503 + 12289)

/-- What a server sends: a `message` made from the bare answer to the query, or `octets` behind the
ID of the query. -/
inductive Content
  | message (build : Message → Message)
  | raw (octets : Octets)

/-- A message that a server sends after a delay, or, without one, while the query is still being
sent. Another source may be given, and bits of the ID may be flipped. -/
structure Emission where
  delay : Option Nat
  source : Option Endpoint
  flips : UInt16
  content : Content

/-- How a server treats queries for a name and a type: how long sending the query takes, in
milliseconds, whether it fails, and what comes back. The number of uses may be limited. -/
structure Rule where
  name : Option Name
  type : Option RecordType
  uses : Option Nat
  writing : Nat
  fails : Bool
  emissions : List Emission

/-- The rules of servers. -/
structure Script where
  servers : List (Endpoint × List Rule)

namespace Rule

/-- The `rule` is for a `question` and is not used up. -/
def Fits (rule : Rule) (question : Question) : Prop :=
  (rule.name.all fun name => name == question.name) ∧ (rule.type.all (· = question.type)) ∧
    rule.uses ≠ some 0

instance (rule : Rule) (question : Question) : Decidable (rule.Fits question) :=
  inferInstanceAs (Decidable (_ ∧ _))

/-- The `rule` after a use. -/
def use (rule : Rule) : Rule := { rule with uses := rule.uses.map (· - 1) }

/-- The first `rule` that `Fits`, and the `rules` after using it. -/
def select (question : Question) : List Rule → Option Rule × List Rule
  | [] => (none, [])
  | rule :: rules =>
    if rule.Fits question then (some rule, rule.use :: rules)
    else
      let (found, rules) := select question rules
      (found, rule :: rules)

end Rule

/-- Uses the `Rule` of a `server` for a `question`. -/
def Script.serve (script : Script) (server : Endpoint) (question : Question) :
    Option Rule × Script :=
  match script.servers.lookup server with
  | none => (none, script)
  | some rules =>
    let (found, rules) := Rule.select question rules
    (found, ⟨script.servers.map fun item => if item.1 = server then (server, rules) else item⟩)

/-- The `octets` of a `Message` that a server sends for a `query`, if it can be written. -/
def Emission.octets (emission : Emission) (query : Message) : Except Misuse Octets :=
  let id := query.header.id ^^^ emission.flips
  match emission.content with
  | .raw octets => .ok (Octets.pushWord #[] id ++ octets)
  | .message build =>
    let message := build (.answerFor query)
    let header := { message.header with id := message.header.id ^^^ emission.flips }
    { message with header := header : Message }.encode

end Simulation

end NameResolution
