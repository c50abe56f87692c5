import NameResolution.Message

/-!
# Outcomes

What a response means for the name and type that were asked for.

* `Answer`: the record sets that were found, and the name that carries them.
* `aliasStep?`: the name that a name is an alias of, according to an answer section.
* `classify`: the outcome of a response. Aliases are followed down to a name that carries records;
  a response without any answer may refer to the servers of a closer zone.
-/

namespace NameResolution

/-- Record sets and the name that carries them. -/
structure Answer where
  canonical : Name
  sets : List RecordSet
  deriving DecidableEq

/-- The `addresses` of an `answer`. -/
def Answer.addresses (answer : Answer) : List Address := RecordSet.addresses answer.sets

/-- The name servers of a zone, as a response refers to them, with the addresses it gives. -/
structure Referral where
  servers : RecordSet
  glue : List RecordSet
  deriving DecidableEq

/-- The `zone` that is referred to. -/
def Referral.zone (referral : Referral) : Name := referral.servers.owner

/-- What a response means. -/
inductive Outcome
  | answer (answer : Answer)
  | alias (target : Name)
  | referral (referral : Referral)
  | nxDomain
  | noData
  deriving DecidableEq

namespace Outcome

/-- The name that a record set makes `name` an alias of. -/
def aliasBy? (name : Name) (set : RecordSet) : Option Name :=
  match set.first with
  | .cname target => if set.owner == name then some target else none
  | .dname target =>
    match name.rewrite? set.owner target with
    | .ok next => next
    | .error _ => none
  | _ => none

/-- The name that the first fitting one of some record sets makes `name` an alias of. -/
def aliasStep? (sets : List RecordSet) (name : Name) : Option Name := sets.findSome? (aliasBy? name)

/-- The record `sets` of a `type` at a `name`. -/
def setsAt (sets : List RecordSet) (name : Name) (type : RecordType) : List RecordSet :=
  sets.filter fun set => set.type = type ∧ set.owner == name

/-- How far aliases lead: to an `answer`, or to a `name` that neither carries the type nor is an
alias, or that is where the last step led. -/
inductive Trail
  | found (answer : Answer)
  | ends (name : Name)

/-- Follows aliases from `name` to a name with records of the type. -/
def follow (sets : List RecordSet) (type : RecordType) : (steps : Nat) → Name → Trail
  | 0, name => .ends name
  | steps + 1, name =>
    let here := setsAt sets name type
    if here.isEmpty then
      match aliasStep? sets name with
      | some next => follow sets type steps next
      | none => .ends name
    else .found ⟨name, here⟩

/-- The `set` of name servers with the longest `owner`; the last one of several. -/
def closest : List RecordSet → Option RecordSet
  | [] => none
  | set :: sets =>
    match closest sets with
    | none => some set
    | some other => if other.owner.labelCount < set.owner.labelCount then some set else some other

/-- The servers that an `authority` section refers to for a `name`: none if there is an SOA
record. -/
def delegated? (authority : List RecordSet) (name : Name) : Option RecordSet :=
  if authority.any (·.type = .soa) then none
  else closest (authority.filter fun set => set.type = .ns ∧ name.IsSubdomainOf set.owner)

/-- The address sets that belong to listed `servers`. -/
def glueFor (servers : RecordSet) (additional : List RecordSet) : List RecordSet :=
  additional.filter fun set => set.type.IsAddress ∧ servers.additionalNames.contains set.owner

/-- What a `response` means for a `name` and a `type`. -/
def classify (response : Message) (name : Name) (type : RecordType) : Outcome :=
  let sets := response.sets .answer
  match follow sets type (sets.length + 1) name with
  | .found found => .answer found
  | .ends reached =>
    if response.rcode = .nxDomain then .nxDomain
    else if ¬(reached == name) then .alias reached
    else match delegated? (response.sets .authority) reached with
      | some servers =>
        if sets.isEmpty then .referral ⟨servers, glueFor servers (response.sets .additional)⟩
        else .noData
      | none => .noData

end Outcome

end NameResolution
