import NameResolution.Cache.Lookup
import NameResolution.Message

/-!
# Adding a response

`Cache.addMessage` keeps what a response says about the name it was asked for, and nothing else.
It walks once through the answer section and follows aliases as they come. The authority section
then says who is responsible for the name at the end of the walk, or that there is nothing to be
found. Of the additional section only addresses of hosts count that were mentioned before.

* `Walk`: how far the walk through the answer section has come.
* `Walk.meaning`: what one record set of the answer section means for the walk.
-/

namespace NameResolution

namespace Cache

/-- How far the `Walk` through an answer section has come: the name reached, whether an alias was
followed and whether an answer was met, what a lookup for the question would find, and the hosts
that were mentioned. -/
structure Walk where
  name : Name
  aliased : Bool
  completed : Bool
  found : Option Lookup
  hosts : List Name

namespace Walk

/-- The start of the `Walk` for a question. -/
def start (name : Name) : Walk := ⟨name, false, false, none, []⟩

/-- The answer `set` was met. -/
def complete (walk : Walk) (set : RecordSet) : Walk where
  name := walk.name
  aliased := walk.aliased
  completed := true
  found :=
    if walk.aliased then walk.found
    else match walk.found with
      | some (.successful sets) => some (.successful (sets ++ [set]))
      | _ => some (.successful [set])
  hosts := walk.hosts ++ set.additionalNames

/-- An alias of the name was met in `set`. -/
def followCname (walk : Walk) (set : RecordSet) : Walk where
  name := match set.first with
    | .cname target => target
    | _ => walk.name
  aliased := true
  completed := walk.completed
  found := if walk.aliased then walk.found else some (.cname set)
  hosts := walk.hosts

/-- An alias of a subtree with the name was met in `set`. Nothing if the new name would be too
long. -/
def followDname (walk : Walk) (set : RecordSet) : Option Walk :=
  let next := match set.first with
    | .dname target => walk.name.rewrite? set.owner target
    | _ => .ok none
  match next with
  | .error _ => none
  | .ok next => some {
      name := next.getD walk.name
      aliased := true
      completed := walk.completed
      found := if walk.aliased then walk.found else some (.dname set)
      hosts := walk.hosts }

/-- What a `RecordSet` means for the `Walk`. -/
inductive Meaning
  | nothing
  | answer
  | cname
  | dname

/-- What a record `set` of the answer section means for the `walk`. -/
def meaning (walk : Walk) (question : Question) (set : RecordSet) : Meaning :=
  if set.recordClass ≠ question.recordClass ∨ set.type.IsQueryOnly then .nothing
  else if (set.type = question.type ∨ question.type = .any) ∧ set.owner == walk.name then .answer
  else if set.type = .cname ∧ set.owner == walk.name then .cname
  else if set.type = .dname ∧ ¬(set.owner == walk.name) ∧ walk.name.IsSubdomainOf set.owner then
    .dname
  else .nothing

end Walk

/-- Walks through the record `sets` of an `answer` section and keeps those that belong to it. -/
def walkAnswer (question : Question) (credibility : Credibility) (now : Duration) (walk : Walk) :
    List RecordSet → Op Cache Walk
  | [] => return walk
  | set :: sets => do
    match walk.meaning question set with
    | .nothing => walkAnswer question credibility now walk sets
    | .answer =>
      addSet set credibility now
      walkAnswer question credibility now (walk.complete set) sets
    | .cname =>
      addSet set credibility now
      walkAnswer question credibility now (walk.followCname set) sets
    | .dname =>
      addSet set credibility now
      match walk.followDname set with
      | some walk => walkAnswer question credibility now walk sets
      | none => return walk

/-- The last set of a type whose owner is `name` or an ancestor of it. -/
def lastCovering (sets : List RecordSet) (name : Name) (type : RecordType) : Option RecordSet :=
  (sets.filter fun set => name.IsSubdomainOf set.owner ∧ set.type = type).getLast?

/-- How long an SOA set lets the absence of data be remembered: its TTL or its minimum, whichever is
less. -/
def absenceTtlOfSet (soa : RecordSet) : UInt32 :=
  match soa.first with
  | .soa data => min soa.ttl data.minimum
  | _ => soa.ttl

/-- Keeps what the `authority` section says. -/
def addAuthority (question : Question) (message : Message) (now : Duration) (walk : Walk) :
    Op Cache Walk := do
  let sets := message.sets .authority
  let soa := lastCovering sets walk.name .soa
  let servers := lastCovering sets walk.name .ns
  let credibility := Credibility.ofAuthority message.header.isAuthoritative
  let missing : Bool := message.rcode = .nxDomain
  if walk.completed then
    match servers with
    | some servers =>
      if message.rcode = .noError then
        addSet servers credibility now
        return { walk with hosts := walk.hosts ++ servers.additionalNames }
      else return walk
    | none => return walk
  else
    match servers, !missing && soa.isNone with
    | some servers, true =>
      addSet servers credibility now
      return { walk with
        hosts := walk.hosts ++ servers.additionalNames
        found := walk.found.or (some (.delegation servers)) }
    | _, _ =>
      let ttl := (soa.map absenceTtlOfSet).getD 0
      addAbsence walk.name (if missing then .nothing else question.type) ttl credibility now
      return { walk with
        found := walk.found.or (some (if missing then .nxDomain else .nxRrset)) }

/-- Keeps the addresses of the `hosts` that were mentioned. -/
def addAdditional (hosts : List Name) (credibility : Credibility) (now : Duration) :
    List RecordSet → Op Cache Unit
  | [] => return
  | set :: sets => do
    if set.type.IsAddress ∧ hosts.contains set.owner then addSet set credibility now
    addAdditional hosts credibility now sets

/-- Keeps what a response says about the `name` it was asked for. The result is what a lookup for
the `question` would then find. -/
def addMessage (message : Message) (now : Duration) : Op Cache Lookup := do
  match message.questions with
  | [] => return .unknown
  | question :: _ =>
    if message.rcode = .noError ∨ message.rcode = .nxDomain then
      let authoritative := message.header.isAuthoritative
      let walk ← walkAnswer question (.ofAnswer authoritative) now (.start question.name)
        (message.sets .answer)
      let walk ← addAuthority question message now walk
      addAdditional walk.hosts (.ofAdditional authoritative) now (message.sets .additional)
      return walk.found.getD .unknown
    else return .unknown

end Cache

end NameResolution
