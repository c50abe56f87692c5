import Mathlib.Data.List.Perm.Basic
import NameResolution.Proofs.Resolution.Regimes
import NameResolution.Proofs.Resolution.Systems

/-!
# Passes under way

Races, host lookups and calls start passes, let them go on after events of their queries, and give
them up. So what holds of a resolver and all passes under way is kept by calls if passes keep it.

* `Conduct`: something that holds of a resolver and the passes under way, and that passes keep.
* `Regime.conduct`: what the operations of passes keep is such a thing.
* `Conduct.triple_step`, `Conduct.drop_call`: calls keep it, when they take a step and when they are
  given up.
* `Conduct.holds_step`, `Conduct.holds_abandon`: so do calls of a system.
-/

namespace NameResolution

/-! ## Passes of calls -/

/-- The `pass` that has to go on. -/
def Progress.passes : Progress → List Pass
  | .finished _ => []
  | .waiting pass => [pass]

/-- The `pass` that a `Run` waits for. -/
def Run.passes : Run → List Pass
  | .waiting pass => [pass]
  | .unstarted | .ended _ => []

/-- The passes that some `runs` wait for. -/
def Race.passesOf (runs : List (RecordType × Run)) : List Pass :=
  runs.flatMap fun run => run.2.passes

/-- The passes of a `race`. -/
def Race.passes (race : Race) : List Pass := passesOf race.runs

/-- The passes of a host `lookup` that goes on. -/
def HostProgress.passes : HostProgress → List Pass
  | .finished _ => []
  | .racing lookup => lookup.race.passes

/-- The passes of an `Activity`. A single question is like a `Pass` that nothing waits for. -/
def Activity.passes : Activity → List Pass
  | .racing lookup => lookup.race.passes
  | .asking asked => [⟨asked, []⟩]
  | .requested | .over _ => []

/-- The `query` that a `pass` waits for. -/
def Pass.query (pass : Pass) : Query := pass.asked.query

/-- The passes of a `call`. -/
def Call.passes (call : Call) : List Pass := call.activity.passes

theorem Race.passes_new (name : Name) (preferred : RecordType) (types : List RecordType) :
    (new name preferred types).passes = [] := by
  induction types with
  | nil => rfl
  | cons type types ih => exact ih

theorem Call.passes_enterRace (call : Call) : call.enterRace.passes = call.passes := by
  unfold enterRace
  split <;> rfl

/-! ## Conducts -/

/-- What holds of a resolver and the passes under way, and what passes keep, at the level where a
`Regime` speaks of queries. -/
structure Conduct where
  Holds : List Pass → Resolver → Prop
  perm {passes more : List Pass} {resolver : Resolver} (same : passes.Perm more)
    (holds : Holds passes resolver) : Holds more resolver
  start (rest : List Pass) (name : Name) (type : RecordType) :
    Op.Triple (Holds rest ·.resolver) (Pass.start name type)
      (fun progress session => Holds (progress.passes ++ rest) session.resolver)
      (Holds rest ·.resolver)
  resume (rest : List Pass) (pass : Pass) (event : Event) :
    Op.Triple (Holds (pass :: rest) ·.resolver) (pass.resume event)
      (fun progress session => Holds (progress.passes ++ rest) session.resolver)
      (Holds (pass :: rest) ·.resolver)
  question (rest : List Pass) (name : Name) (type : RecordType) :
    Op.Triple (Holds rest ·.resolver) (Call.beginQuestion name type)
      (fun activity session => Holds (activity.passes ++ rest) session.resolver)
      (Holds rest ·.resolver)
  answer (rest : List Pass) (asked : Asked) (event : Event) :
    Op.Triple (Holds (⟨asked, []⟩ :: rest) ·.resolver) (Call.resumeQuestion asked event)
      (fun activity session => Holds (activity.passes ++ rest) session.resolver)
      (Holds (⟨asked, []⟩ :: rest) ·.resolver)
  drop {rest : List Pass} {resolver : Resolver} (pass : Pass)
    (holds : Holds (pass :: rest) resolver) : Holds rest (pass.drop resolver).2

namespace Regime

variable {regime : Regime} {rest : List Query}

theorem leads_beginQuestion (name : Name) (type : RecordType) :
    regime.Leads rest (Call.beginQuestion name type) fun activity =>
      activity.passes.map Pass.query := by
  unfold Call.beginQuestion
  refine quiet_configuredRota.bind fun rota => (leads_askNext _).bind fun result => ?_
  cases result <;> exact .ret fun _ => id

theorem triple_resumeQuestion (asked : Asked) (event : Event) :
    Op.Triple (regime.At (asked.query :: rest)) (Call.resumeQuestion asked event)
      (fun activity => regime.At (activity.passes.map Pass.query ++ rest))
      (regime.At (asked.query :: rest)) := by
  have weaker (session : Session) (holds : regime.At rest session) :
      regime.At (asked.query :: rest) session :=
    regime.mono (List.subset_cons_self _ _) holds
  unfold Call.resumeQuestion
  refine (triple_happen asked.query event).bind fun ⟨settled, query⟩ => ?_
  cases settled with
  | none => exact .ret fun _ => id
  | some result =>
    intro session ⟨holds, ends⟩
    refine (Op.Triple.bind (leads_evaluate asked.inquiry ends) fun evaluation => ?_).conseq
      (fun _ => id) (fun _ _ => id) weaker session holds
    cases evaluation <;> exact .ret fun _ => id

variable (regime)

/-- What the operations of passes keep with the queries that are waited for, calls keep with their
passes: a `Regime` gives a `Conduct`. -/
def conduct : Conduct where
  Holds passes := regime.Holds (passes.map Pass.query)
  perm same := regime.mono (same.map _).subset
  start rest name type := (regime.leads_start name type).weaken fun progress _ => by
    cases progress <;> exact id
  resume rest pass event := (regime.triple_resume pass event).weaken fun progress _ => by
    cases progress <;> exact id
  question rest name type := (regime.leads_beginQuestion name type).weaken fun activity _ => by
    rw [List.map_append]
    exact id
  answer rest asked event := (triple_resumeQuestion asked event).weaken fun activity session => by
    rw [List.map_append]
    exact id
  drop pass := regime.drop pass.asked.query

end Regime

namespace Conduct

variable (conduct : Conduct)

/-- The `conduct` holds of the `resolver` of a `session`. -/
def At (passes : List Pass) (session : Session) : Prop := conduct.Holds passes session.resolver

variable {conduct} {rest : List Pass}

/-! ### Races -/

theorem triple_advanceRun {fits : RecordType → Run → Bool}
    {advance : RecordType → Run → Op Session Run}
    (each : ∀ rest type run, Op.Triple (conduct.At (run.passes ++ rest)) (advance type run)
      (fun next => conduct.At (next.passes ++ rest)) (conduct.At (run.passes ++ rest)))
    (runs : List (RecordType × Run)) :
    Op.Triple (conduct.At (Race.passesOf runs ++ rest)) (Race.advanceRun fits advance runs)
      (fun next => conduct.At (Race.passesOf next ++ rest))
      (conduct.At (Race.passesOf runs ++ rest)) := by
  induction runs generalizing rest with
  | nil => exact .ret fun _ => id
  | cons run runs ih =>
    obtain ⟨type, run⟩ := run
    -- The passes of the run at hand are brought to the front, whether it is the one that goes on or
    -- not.
    have split (next : Run) (others : List (RecordType × Run)) :
        (next.passes ++ (Race.passesOf others ++ rest)).Perm
          (Race.passesOf ((type, next) :: others) ++ rest) := by
      rw [← List.append_assoc]
      exact .refl _
    have swap (next : Run) (others : List (RecordType × Run)) :
        (Race.passesOf others ++ (next.passes ++ rest)).Perm
          (Race.passesOf ((type, next) :: others) ++ rest) := by
      refine .trans ?_ (split next others)
      rw [← List.append_assoc, ← List.append_assoc]
      exact List.perm_append_comm.append_right rest
    unfold Race.advanceRun
    split
    · have goes := each (Race.passesOf runs ++ rest) type run
      refine Op.Triple.bind (goes.conseq (fun _ => conduct.perm (split _ _).symm) (fun _ _ => id)
        fun _ => conduct.perm (split _ _)) fun next => .ret fun _ => conduct.perm (split _ _)
    · exact Op.Triple.bind (ih.conseq (fun _ => conduct.perm (swap _ _).symm) (fun _ _ => id)
        fun _ => conduct.perm (swap _ _)) fun next => .ret fun _ => conduct.perm (swap _ _)

theorem triple_startRun (race : Race) (type : RecordType) :
    Op.Triple (conduct.At (race.passes ++ rest)) (race.startRun type)
      (fun next => conduct.At (next.passes ++ rest)) (conduct.At (race.passes ++ rest)) := by
  refine (triple_advanceRun (fun rest type run => ?_) race.runs).bind fun _ => .ret fun _ => id
  cases run with
  | unstarted =>
    refine (conduct.start rest race.name type).bind fun progress => ?_
    cases progress <;> exact .ret fun _ => id
  | waiting pass => exact .ret fun _ => id
  | ended result => exact .ret fun _ => id

theorem triple_resumeRun (race : Race) (serial : Nat) (event : Event) :
    Op.Triple (conduct.At (race.passes ++ rest)) (race.resumeRun serial event)
      (fun next => conduct.At (next.passes ++ rest)) (conduct.At (race.passes ++ rest)) := by
  refine (triple_advanceRun (fun rest type run => ?_) race.runs).bind fun _ => .ret fun _ => id
  cases run with
  | waiting pass =>
    refine (conduct.resume rest pass event).bind fun progress => ?_
    cases progress <;> exact .ret fun _ => id
  | unstarted => exact .ret fun _ => id
  | ended result => exact .ret fun _ => id

/-- A `race` that is given up gives up all its passes. -/
theorem drop_race (race : Race) {resolver : Resolver}
    (holds : conduct.Holds (race.passes ++ rest) resolver) :
    conduct.Holds rest (race.drop resolver).2 := by
  have each (runs : List (RecordType × Run)) (resolver : Resolver)
      (holds : conduct.Holds (Race.passesOf runs ++ rest) resolver) :
      conduct.Holds rest
        ((runs.forM fun run => run.2.drop : StateM Resolver Unit) resolver).2 := by
    induction runs generalizing resolver with
    | nil => exact holds
    | cons run runs ih =>
      obtain ⟨type, run⟩ := run
      refine ih _ ?_
      cases run with
      | waiting pass => exact conduct.drop pass holds
      | unstarted => exact holds
      | ended result => exact holds
  exact each race.runs resolver holds

/-! ### Host lookups -/

/-- A host lookup that goes on between two races is never refused, and keeps what the `conduct`
holds of the resolver and the `rest` of the passes. -/
abbrev Between (conduct : Conduct) (rest : List Pass) (op : Op Session HostProgress) : Prop :=
  Op.Triple (conduct.At rest) op (fun progress => conduct.At (progress.passes ++ rest))
    fun _ => False

theorem between_tryName (name : Name) (search : Option Search) :
    Between conduct rest (HostLookup.tryName name search) := by
  intro session holds
  simp only [HostLookup.tryName, Op.bind_apply, Op.get_apply]
  cases session.resolver.hosts.addresses? name with
  | some addresses => exact holds
  | none =>
    show conduct.At (Race.passes (.new _ _ _) ++ rest) session
    rwa [Race.passes_new]

theorem between_tryNext (relative : Name) (lastFailure : Option Failure) (suffixes : List Name) :
    Between conduct rest (HostLookup.tryNext relative lastFailure suffixes) := by
  induction suffixes generalizing lastFailure with
  | nil => exact .ret fun _ => id
  | cons suffix suffixes ih =>
    unfold HostLookup.tryNext
    split
    · exact between_tryName _ _
    · exact ih _

theorem between_begin (host : String) : Between conduct rest (HostLookup.begin host) := by
  have reads : Op.Triple (conduct.At rest) Session.settings (fun _ => conduct.At rest)
      fun _ => False := fun _ => id
  unfold HostLookup.begin
  split
  · exact .ret fun _ => id
  split
  · exact .ret fun _ => id
  refine reads.bind fun settings => ?_
  split
  · exact between_tryName _ _
  · exact between_tryNext _ _ _

theorem between_settle (search : Option Search) (result : Except Failure FoundHosts) :
    Between conduct rest (HostLookup.settle search result) := by
  unfold HostLookup.settle
  split
  · split
    · exact .ret fun _ => id
    · exact between_tryNext _ _ _
  · exact .ret fun _ => id

theorem between_askAlias (lookup : HostLookup) (failure : Failure) :
    Between conduct rest (lookup.askAlias failure) := by
  intro session holds
  unfold HostLookup.askAlias
  by_cases left : HostLookup.leavesAliasOpen failure ∧ ¬session.allowance.aliasAsked
  · simp only [Op.bind_apply, Op.get_apply, if_pos left]
    exact holds
  · simp only [Op.bind_apply, Op.get_apply, if_neg left]
    exact between_settle _ _ session holds

theorem between_followAlias (lookup : HostLookup) (failure : Failure) :
    Between conduct rest (lookup.followAlias failure) := by
  unfold HostLookup.followAlias
  split
  · split
    · exact between_settle _ _
    · intro session holds
      show conduct.At (Race.passes (.new _ _ _) ++ rest) session
      rwa [Race.passes_new]
  · exact between_settle _ _

theorem triple_conclude (lookup : HostLookup) :
    Op.Triple (conduct.At (lookup.race.passes ++ rest)) lookup.conclude
      (fun progress => conduct.At (progress.passes ++ rest)) fun _ => False := by
  have drops : Op.Triple (conduct.At (lookup.race.passes ++ rest))
      (Session.withResolver lookup.race.drop) (fun _ => conduct.At rest) fun _ => False :=
    fun session => drop_race lookup.race
  refine drops.bind fun _ => ?_
  split
  · split
    · exact between_settle _ _
    · exact between_askAlias _ _
  · exact between_followAlias _ _
  · exact between_settle _ _

/-! ### Calls -/

/-- Whatever a `call` does, it keeps the `conduct` with the passes of other calls. -/
abbrev Goes (conduct : Conduct) (rest : List Pass) (call : Call) (op : Op Resolver Call) : Prop :=
  Op.Triple (conduct.Holds (call.passes ++ rest)) op
    (fun next => conduct.Holds (next.passes ++ rest)) (conduct.Holds (call.passes ++ rest))

theorem goes_goOn {call : Call} {op : Op Session Activity}
    (triple : Op.Triple (conduct.At (call.passes ++ rest)) op
      (fun activity => conduct.At (activity.passes ++ rest))
      (conduct.At (call.passes ++ rest))) : Goes conduct rest call (call.goOn op) := by
  intro resolver holds
  have went := triple ⟨resolver, call.allowance⟩ holds
  unfold Call.goOn
  rcases found : op ⟨resolver, call.allowance⟩ with ⟨misuse | activity, session⟩
  all_goals
    rw [found] at went
    exact went

theorem triple_ofHost {pre : Session → Prop} {op : Op Session HostProgress}
    (triple : Op.Triple pre op (fun progress => conduct.At (progress.passes ++ rest))
      fun _ => False) {refused : Session → Prop} :
    Op.Triple pre (Call.ofHost <$> op) (fun activity => conduct.At (activity.passes ++ rest))
      refused := by
  refine .map (triple.conseq (fun _ => id) (fun progress _ => ?_) fun _ => False.elim)
  cases progress <;> exact id

theorem goes_enterRace {call : Call} {op : Op Resolver Call} (goes : Goes conduct rest call op) :
    Goes conduct rest call (do return (← op).enterRace) := by
  refine goes.bind fun next => .ret fun _ holds => ?_
  rwa [Call.passes_enterRace]

theorem goes_attend (call : Call) (matter : Matter) :
    Goes conduct rest call (call.attend matter) := by
  unfold Call.attend
  split
  · rename_i idle
    have none : call.passes = [] := congrArg Activity.passes idle
    split
    · refine goes_enterRace (goes_goOn (triple_ofHost ?_))
      rw [none]
      exact between_begin _
    · refine goes_goOn ?_
      rw [none]
      exact conduct.question rest _ _
  · rename_i lookup type racing
    have own : call.passes = lookup.race.passes := congrArg Activity.passes racing
    refine goes_goOn ?_
    rw [own]
    exact (triple_startRun lookup.race type).bind fun _ => .ret fun _ => id
  · rename_i lookup serial event racing
    have own : call.passes = lookup.race.passes := congrArg Activity.passes racing
    refine goes_goOn ?_
    rw [own]
    exact (triple_resumeRun lookup.race serial event).bind fun _ => .ret fun _ => id
  · rename_i asked serial event asking
    have own : call.passes = [⟨asked, []⟩] := congrArg Activity.passes asking
    split
    · refine goes_goOn ?_
      rw [own]
      exact conduct.answer rest asked event
    · exact .ret fun _ => id
  · exact .ret fun _ => id

/-- A `step` of a `call` keeps the `conduct`. A call that has to wait stays as it is. -/
theorem triple_step (call : Call) :
    Op.Triple (conduct.Holds (call.passes ++ rest)) call.step
      (fun next => conduct.Holds ((next.getD call).passes ++ rest))
      (conduct.Holds (call.passes ++ rest)) := by
  unfold Call.step
  split
  · rename_i matter matters _
    have goes : Goes conduct rest call (Call.attend { call with matters := matters } matter) :=
      goes_attend { call with matters := matters } matter
    exact goes.bind fun _ => .ret fun _ => id
  · unfold Call.closeRace
    split
    · rename_i lookup racing
      have own : call.passes = lookup.race.passes := congrArg Activity.passes racing
      split
      · have closes : Goes conduct rest call (call.goOn (Call.ofHost <$> lookup.conclude)) := by
          refine goes_goOn (triple_ofHost ?_)
          rw [own]
          exact triple_conclude lookup
        refine closes.bind fun next => .ret fun _ holds => ?_
        show conduct.Holds (next.enterRace.passes ++ rest) _
        rwa [Call.passes_enterRace]
      · exact .ret fun _ => id
    · exact .ret fun _ => id

/-- A `call` that is given up gives up all its passes. -/
theorem drop_call (call : Call) {resolver : Resolver}
    (holds : conduct.Holds (call.passes ++ rest) resolver) :
    conduct.Holds rest (call.drop resolver).2 := by
  unfold Call.passes at holds
  unfold Call.drop
  cases activity : call.activity with
  | racing lookup =>
    rw [activity] at holds
    exact drop_race lookup.race holds
  | asking asked =>
    rw [activity] at holds
    exact conduct.drop ⟨asked, []⟩ holds
  | requested =>
    rw [activity] at holds
    exact holds
  | «over» result =>
    rw [activity] at holds
    exact holds

/-! ### Systems -/

variable {system : System} {index : Nat} {call : Call}

/-- After a `step` of a `call`, which may have been refused, the call is in a place where the
`conduct` still holds. -/
theorem holds_step (here : system.calls[index]? = some call)
    (holds : conduct.Holds (call.passes ++ rest) system.resolver) :
    ∃ next, (System.occur (.step index) system).2.calls = system.calls.set index next ∧
      conduct.Holds (next.passes ++ rest) (System.occur (.step index) system).2.resolver := by
  have stays : system.calls.set index call = system.calls := by
    obtain ⟨bound, rfl⟩ := List.getElem?_eq_some_iff.mp here
    exact List.set_getElem_self bound
  have steps := triple_step call system.resolver holds
  simp only [System.occur, System.onCall_of_some here, System.onResolver, Op.bind_apply,
    Op.onPart_apply]
  rcases stepped : call.step system.resolver with ⟨misuse | next, resolver⟩
  all_goals rw [stepped] at steps
  · exact ⟨call, stays.symm, steps⟩
  · cases next with
    | none => exact ⟨call, stays.symm, steps⟩
    | some next => exact ⟨next, rfl, steps⟩

/-- A `call` of a `system` that is given up leaves the `conduct` of the others as it is. -/
theorem holds_abandon (here : system.calls[index]? = some call)
    (holds : conduct.Holds (call.passes ++ rest) system.resolver) :
    (System.occur (.abandon index) system).2.calls = system.calls.eraseIdx index ∧
      conduct.Holds rest (System.occur (.abandon index) system).2.resolver := by
  simp only [System.occur, System.onCall_of_some here, System.onResolver, Op.bind_apply,
    Op.onPart_apply, Op.lift_apply]
  exact ⟨rfl, drop_call call holds⟩

end Conduct

end NameResolution
