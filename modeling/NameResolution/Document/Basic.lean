import NameResolution.Duration

/-!
# Documents

A `Document` is a value of the kind that configuration files are made of: texts, numbers, lists,
and objects with named members. What is kept in documents has a `Form`: how it is written, and
what is understood as it.

* `Document.member?`: a member of an object.
* `Form.text`, `Form.list`, `Form.natural`, `Form.flag`, `Form.variant`, `Form.duration`: the forms
  that others are put together from.
-/

namespace NameResolution

/-- A `value` in a configuration file. Numbers that are not natural are of no use here and have no
value. -/
inductive Document
  | null
  | flag (value : Bool)
  | natural (value : Nat)
  | otherNumber
  | text (value : String)
  | list (items : List Document)
  | object (members : List (String × Document))
  deriving Inhabited

/-- How values of the type `α` are written as documents, and which documents stand for them. -/
structure Form (α : Type) where
  write : α → Document
  read? : Document → Option α

namespace Document

/-- The member of an object with a `name`. -/
def member? (members : List (String × Document)) (name : String) : Option Document :=
  members.lookup name

/-- A natural number of at most `greatest`. -/
def naturalUpTo? (greatest : Nat) : Document → Option Nat
  | natural value => if value ≤ greatest then some value else none
  | _ => none

end Document

namespace Form

/-- A value that is written as its `text`. -/
def text {α : Type} (toText : α → String) (ofText? : String → Option α) : Form α where
  write value := .text (toText value)
  read?
    | .text value => ofText? value
    | _ => none

/-- A natural number of at most `greatest`. -/
def natural (greatest : Nat) : Form Nat where
  write := .natural
  read? := Document.naturalUpTo? greatest

/-- The `Form` of yes and no. -/
def flag : Form Bool where
  write := .flag
  read?
    | .flag value => some value
    | _ => none

/-- A list of values of one `form`. -/
def list {α : Type} (form : Form α) : Form (List α) where
  write values := .list (values.map form.write)
  read?
    | .list items => items.mapM form.read?
    | _ => none

/-- One of several cases, written as a text. An object with the case as its only member, which is
null, is understood too. -/
def variant {α : Type} (toText : α → String) (ofText? : String → Option α) : Form α where
  write value := .text (toText value)
  read?
    | .text value => ofText? value
    | .object [(name, .null)] => ofText? name
    | _ => none

/-- The `Form` of a span of time: seconds and nanoseconds, which may exceed a second. -/
def duration : Form Duration where
  write value := .object
    [("secs", .natural value.seconds), ("nanos", .natural value.subsecond)]
  read? document := do
    let (seconds, nanos) ← match document with
      | .object members =>
        if members.all fun member => member.1 = "secs" ∨ member.1 = "nanos" then
          some (← Document.member? members "secs", ← Document.member? members "nanos")
        else none
      | .list [seconds, nanos] => some (seconds, nanos)
      | _ => none
    let seconds ← Document.naturalUpTo? 0xFFFFFFFFFFFFFFFF seconds
    let nanos ← Document.naturalUpTo? 0xFFFFFFFF nanos
    Duration.ofNanos? (seconds * Duration.second + nanos)

/-- A `Member` of an object that is filled in member by member: its name, how it is written, and how
it is taken over. Members that are missing keep their values. -/
structure Member (α : Type) where
  name : String
  write : α → Document
  update? : α → Document → Option α

/-- The `member` with a `form` of its own. -/
def member {α β : Type} (name : String) (form : Form β) (get : α → β) (set : α → β → α) :
    Member α where
  name := name
  write value := form.write (get value)
  update? value document := (form.read? document).map (set value)

/-- Takes over the `items` of a list, `member` by member. There must not be more items than
`members`. -/
def updateInOrder? {α : Type} : List (Member α) → α → List Document → Option α
  | _, value, [] => some value
  | [], _, _ :: _ => none
  | member :: members, value, item :: items => do
    updateInOrder? members (← member.update? value item) items

/-- An `object` with `members`. Members of other names are left alone; a list of the values of the
first members is understood too. -/
def object {α : Type} (default : α) (members : List (Member α)) : Form α where
  write value := .object (members.map fun member => (member.name, member.write value))
  read?
    | .object given =>
      members.foldlM (fun value member =>
        match Document.member? given member.name with
        | some document => member.update? value document
        | none => some value) default
    | .list items => updateInOrder? members default items
    | _ => none

end Form

end NameResolution
