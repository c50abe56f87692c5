import NameResolution.Resolution.Pass

/-!
# Races

A `Race` resolves several record types of one name at the same time, with a pass for each. It is
over when all passes have ended, or when the pass for the preferred type has an answer and no other
one can go on right away; passes that are then still under way are given up.

* `Race.startRun`, `Race.resumeRun`: let one pass of a race go on.
* `Race.isWon`, `Race.AllEnded`: when a race may be closed.
* `Race.addresses`: what a race for addresses has found. The order is that of the types, not that in
  which the passes ended.
-/

namespace NameResolution

/-- One `pass` of a race. -/
inductive Run
  | unstarted
  | waiting (pass : Pass)
  | ended (result : Except Failure Answer)

namespace Run

/-- The `Run` after its `pass` has gone on. -/
def ofProgress : Progress → Run
  | .finished result => ended result
  | .waiting pass => waiting pass

/-- The `result` of a `Run` that has ended. -/
def result? : Run → Option (Except Failure Answer)
  | ended result => some result
  | _ => none

/-- The `serial` number of the `query` that a `Run` waits for. -/
def serial? : Run → Option Nat
  | waiting pass => some pass.asked.query.serial
  | _ => none

/-- Gives a `Run` up. -/
def drop : Run → StateM Resolver Unit
  | waiting pass => pass.drop
  | _ => pure ()

end Run

/-- The address that hosts were found at, and the name that carries it. -/
structure FoundHosts where
  canonical : Name
  addresses : List Address
  deriving DecidableEq

/-- Passes for one name under way. -/
structure Race where
  name : Name
  preferred : RecordType
  runs : List (RecordType × Run)

namespace Race

/-- A `Race` that has not been started. -/
def new (name : Name) (preferred : RecordType) (types : List RecordType) : Race :=
  ⟨name, preferred, types.map fun type => (type, .unstarted)⟩

/-- A `Race` for the addresses of a `name`. -/
def forAddresses (name : Name) (preference : Preference) : Race :=
  new name preference.preferred preference.types

/-- A `Race` for a bare alias, with nobody to race against. -/
def forAlias (name : Name) : Race := new name .cname [.cname]

/-- The `types` of the passes. -/
def types (race : Race) : List RecordType := race.runs.map Prod.fst

/-- Lets the first `run` that fits go on. -/
def advanceRun (fits : RecordType → Run → Bool) (advance : RecordType → Run → Op Session Run) :
    List (RecordType × Run) → Op Session (List (RecordType × Run))
  | [] => return []
  | (type, run) :: runs => do
    if fits type run then return (type, ← advance type run) :: runs
    else return (type, run) :: (← advanceRun fits advance runs)

/-- Starts the `Pass` for a `type`. -/
def startRun (race : Race) (type : RecordType) : Op Session Race := do
  let runs ← advanceRun (fun own _ => own = type) (fun type run => match run with
    | .unstarted => return .ofProgress (← Pass.start race.name type)
    | run => return run) race.runs
  return { race with runs := runs }

/-- Lets the `pass` that waits for a query go on after an `event` of the query. -/
def resumeRun (race : Race) (serial : Nat) (event : Event) : Op Session Race := do
  let runs ← advanceRun (fun _ run => run.serial? = some serial) (fun _ run => match run with
    | .waiting pass => return .ofProgress (← pass.resume event)
    | run => return run) race.runs
  return { race with runs := runs }

/-- The serial numbers of the queries that the `race` waits for. -/
def serials (race : Race) : List Nat := race.runs.filterMap fun run => run.2.serial?

/-- All `runs` of the race have ended. -/
def AllEnded (race : Race) : Prop := ∀ run ∈ race.runs, run.2.result?.isSome

instance (race : Race) : Decidable race.AllEnded :=
  inferInstanceAs (Decidable (∀ run ∈ race.runs, run.2.result?.isSome))

/-- The result of a `Run` is an answer. -/
def answered : Run → Bool
  | .ended (.ok _) => true
  | _ => false

/-- The pass for the preferred type has an answer. -/
def isWon (race : Race) : Bool :=
  race.runs.any fun run => run.1 = race.preferred && answered run.2

/-- Gives up all `runs` that are under way. -/
def drop (race : Race) : StateM Resolver Unit := race.runs.forM fun run => run.2.drop

/-! ## Results -/

/-- The `results` in the order of the types. -/
def results (race : Race) : List (Except Failure Answer) :=
  race.runs.filterMap fun run => run.2.result?

/-- The answers in the order of the types. -/
def answers (race : Race) : List Answer := race.results.filterMap Except.toOption

/-- A `Failure` that ends a call whatever else is found. -/
def isFinal : Failure → Bool
  | .budgetExhausted | .cancelled => true
  | _ => false

/-- The `failure` that counts of several `results`: the last final one, or else the first one. -/
def countingFailure (failure : Option Failure) : List (Except Failure Answer) → Option Failure
  | [] => failure
  | .ok _ :: results => countingFailure failure results
  | .error next :: results =>
    countingFailure (if failure.isNone ∨ isFinal next then some next else failure) results

/-- The `addresses` found, under the name of the first answer. -/
def addresses (race : Race) : Except Failure FoundHosts :=
  let found := race.answers.flatMap Answer.addresses
  match race.answers.head? with
  | some first =>
    if found.isEmpty then .error ((countingFailure none race.results).getD .noMatchingRecord)
    else .ok ⟨first.canonical, found⟩
  | none => .error ((countingFailure none race.results).getD .noMatchingRecord)

/-- The target of the first alias in the answers. -/
def aliasTarget? (race : Race) : Option Name :=
  (race.answers.flatMap fun answer => answer.sets.flatMap RecordSet.data).findSome?
    RecordData.aliasTarget?

end Race

end NameResolution
