import NameResolution.Name.Text

/-!
# Broken preconditions

Some operations are only meant for some arguments: a relative name has no wire form, a negative
entry needs an SOA record. `Misuse` lists these preconditions, and an operation that is called
against one of them is refused with it. `Op` is an operation on a state that can be refused; what
it changed before stays changed.
-/

namespace NameResolution

/-- A precondition that does not hold. `kind` names a record type by its text. -/
inductive Misuse
  | relativeInMessage (name : Name)
  | relativeOwner (owner : Name)
  | relativeInCache (name : Name)
  | queryOnlyType (kind : String)
  | negativeWithoutSoa
  | delegationWithoutServers
  | longData
  | longSection
  | queryRunTwice
  | clockOverflow
  deriving DecidableEq

/-- The text of a `Misuse`. -/
def Misuse.message : Misuse → String
  | .relativeInMessage name => s!"relative name {name} in wire format"
  | .relativeOwner owner => s!"relative record owner {owner}"
  | .relativeInCache name => s!"relative name {name} in cache"
  | .queryOnlyType kind => s!"caching query-only type {kind}"
  | .negativeWithoutSoa => "negative entry with non-SOA record"
  | .delegationWithoutServers => "delegation without NS records"
  | .longData => "long data"
  | .longSection => "long section"
  | .queryRunTwice => "query run twice"
  | .clockOverflow => "overflow when adding durations"

/-- An operation on a state of type `σ` that can be refused. -/
abbrev Op (σ : Type) := ExceptT Misuse (StateM σ)

namespace Op

/-- An operation on a part of the state as one on the whole, whatever it is refused with. -/
def onPart {ε σ τ α : Type} (part : σ → τ) (replace : σ → τ → σ) (op : ExceptT ε (StateM τ) α) :
    ExceptT ε (StateM σ) α :=
  fun state =>
    let (result, changed) := op (part state)
    (result, replace state changed)

/-- Runs the operation `op`. -/
def runOn {σ α : Type} (op : Op σ α) (state : σ) : Except Misuse α × σ := op state

/-- Goes on with the value in `result`, or is refused. -/
def ofExcept {σ α : Type} (result : Except Misuse α) : Op σ α := fun state => (result, state)

end Op

end NameResolution
