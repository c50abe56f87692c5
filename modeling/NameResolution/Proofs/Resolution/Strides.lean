import Mathlib.Data.List.Nodup
import NameResolution.Proofs.Resolution.Calls
import NameResolution.Proofs.Resolution.Lookups

/-!
# The steps of a call

* `Call.Stride`: all that a step of a call can do. It begins, starts or resumes a pass, goes on with
  a single question, closes a race, or finds that a matter does not concern it.
* `Call.stride_of_step`: every step that a call takes is such a stride.
* `Call.of_rests`: a call that rests has nothing to attend to, and its race goes on.
-/

namespace NameResolution

/-! ## Passes of a race -/

/-- The passes of a race, each a `Run` for a type. -/
abbrev Runs := List (RecordType × Run)

namespace Run

/-- The `pass` that is under way. -/
def pass? : Run → Option Pass
  | waiting pass => some pass
  | _ => none

theorem ofProgress_ne_unstarted (progress : Progress) : ofProgress progress ≠ unstarted := by
  cases progress <;> nofun

end Run

/-- No `run` fits, or the first one that fits goes on. -/
theorem Race.advanceRun_cases {fits : RecordType → Run → Bool}
    {advance : RecordType → Run → Op Session Run} {runs next : Runs}
    {before after : Session} (ran : advanceRun fits advance runs before = (.ok next, after)) :
    (next = runs ∧ after = before ∧ ∀ run ∈ runs, fits run.1 run.2 = false) ∨
      ∃ front type run back later, runs = front ++ (type, run) :: back ∧
        (∀ run ∈ front, fits run.1 run.2 = false) ∧ fits type run = true ∧
        advance type run before = (.ok later, after) ∧ next = front ++ (type, later) :: back := by
  induction runs generalizing next with
  | nil =>
    cases ran
    exact .inl ⟨rfl, rfl, by simp⟩
  | cons first runs ih =>
    obtain ⟨type, run⟩ := first
    unfold advanceRun at ran
    -- The first one that fits is this one, or it is among the others.
    by_cases fit : fits type run = true
    · rw [if_pos fit] at ran
      obtain ⟨later, _, advanced, ran⟩ := Op.bind_eq_ok.mp ran
      cases ran
      exact .inr ⟨[], type, run, runs, later, rfl, by simp, fit, advanced, rfl⟩
    · rw [if_neg fit] at ran
      obtain ⟨rest, _, advanced, ran⟩ := Op.bind_eq_ok.mp ran
      cases ran
      have unfit : fits type run = false := by simpa using fit
      obtain ⟨rfl, rfl, none⟩ | ⟨front, other, found, back, later, rfl, none, fits, went, rfl⟩ :=
        ih advanced
      · exact .inl ⟨rfl, rfl, List.forall_mem_cons.mpr ⟨unfit, none⟩⟩
      · exact .inr ⟨(type, run) :: front, other, found, back, later, rfl,
          List.forall_mem_cons.mpr ⟨unfit, none⟩, fits, went, rfl⟩

/-- The `lookup` with other `runs` of its race. -/
def HostLookup.withRuns (lookup : HostLookup) (runs : Runs) : HostLookup :=
  { lookup with race := { lookup.race with runs := runs } }

/-- The passes that are under way in an `Activity`. -/
def Activity.runs : Activity → Runs
  | .racing lookup => lookup.race.runs
  | _ => []

/-- The `Activity` is that of a single question, or it is over. -/
def Activity.IsSingle : Activity → Prop
  | .requested | .racing _ => False
  | .asking _ | .over _ => True

theorem Activity.IsSingle.runs_eq {activity : Activity} (single : activity.IsSingle) :
    activity.runs = [] := by
  cases activity <;> first | rfl | exact single.elim

namespace Call

/-- The `Pass` that is concerned by the events of a query. -/
def addressee? (call : Call) (serial : Nat) : Option Pass :=
  (call.activity.runs.find? fun run => run.2.serial? = some serial).bind (·.2.pass?)

/-- The `call` with an `activity` that a `session` has led to, after the first of its matters. -/
def goingOn (call : Call) (activity : Activity) (session : Session) : Call :=
  { call with
    activity := activity
    matters := call.matters.tail
    allowance := session.allowance }

/-- A `session` of the `call` with a `resolver`. -/
def session (call : Call) (resolver : Resolver) : Session := ⟨resolver, call.allowance⟩

/-- All that a step of a `call` can do, with the `resolver` that it meets. -/
inductive Stride (call : Call) (resolver : Resolver) : Call → Resolver → Prop
  | begins {host : String} {matters : List Matter} {progress : HostProgress} {session : Session}
    (idle : call.activity = .requested) (first : call.matters = .begin :: matters)
    (ran : HostLookup.begin host (call.session resolver) = (.ok progress, session))
    (own : call.request = .host host) :
    Stride call resolver (call.goingOn (ofHost progress) session).enterRace session.resolver
  | asks {name : Name} {type : RecordType} {matters : List Matter} {activity : Activity}
    {session : Session} (idle : call.activity = .requested)
    (first : call.matters = .begin :: matters)
    (ran : beginQuestion name type (call.session resolver) = (.ok activity, session)) :
    Stride call resolver (call.goingOn activity session) session.resolver
  | starts {lookup : HostLookup} {type : RecordType} {matters : List Matter}
    {front back : Runs} {progress : Progress} {session : Session}
    (racing : call.activity = .racing lookup) (first : call.matters = .start type :: matters)
    (runs : lookup.race.runs = front ++ (type, .unstarted) :: back)
    (ran : Pass.start lookup.race.name type (call.session resolver) = (.ok progress, session)) :
    Stride call resolver (call.goingOn
      (.racing (lookup.withRuns (front ++ (type, .ofProgress progress) :: back))) session)
      session.resolver
  | resumes {lookup : HostLookup} {type : RecordType} {serial : Nat} {event : Event}
    {matters : List Matter} {front back : Runs} {pass : Pass}
    {progress : Progress} {session : Session} (racing : call.activity = .racing lookup)
    (first : call.matters = .event serial event :: matters)
    (runs : lookup.race.runs = front ++ (type, .waiting pass) :: back)
    (addressed : call.addressee? serial = some pass)
    (ran : pass.resume event (call.session resolver) = (.ok progress, session)) :
    Stride call resolver (call.goingOn
      (.racing (lookup.withRuns (front ++ (type, .ofProgress progress) :: back))) session)
      session.resolver
  | answers {asked : Asked} {serial : Nat} {event : Event} {matters : List Matter}
    {activity : Activity} {session : Session} (asking : call.activity = .asking asked)
    (first : call.matters = .event serial event :: matters)
    (ran : resumeQuestion asked event (call.session resolver) = (.ok activity, session)) :
    Stride call resolver (call.goingOn activity session) session.resolver
  | closes {lookup : HostLookup} {progress : HostProgress} {session : Session}
    (racing : call.activity = .racing lookup) (none : call.matters = [])
    (ran : lookup.conclude (call.session resolver) = (.ok progress, session)) :
    Stride call resolver (call.goingOn (ofHost progress) session).enterRace session.resolver
  | passes {matter : Matter} {matters : List Matter} (first : call.matters = matter :: matters)
    (begun : call.activity = .requested → matter ≠ .begin)
    (started : ∀ type, matter = .start type → (call.activity.runs.map Prod.fst).Nodup →
      (type, .unstarted) ∉ call.activity.runs)
    (strange : ∀ serial event, matter = .event serial event → call.addressee? serial = none) :
    Stride call resolver { call with matters := matters } resolver

theorem goOn_eq_ok {call next : Call} {op : Op Session Activity} {resolver after : Resolver} :
    call.goOn op resolver = (.ok next, after) ↔ ∃ activity session,
      op (call.session resolver) = (.ok activity, session) ∧
      next = { call with activity := activity, allowance := session.allowance } ∧
      after = session.resolver := by
  unfold goOn session
  rcases op ⟨resolver, call.allowance⟩ with ⟨misuse | activity, session⟩
  · constructor
    · intro ran
      cases ran
    · rintro ⟨_, _, ran, -⟩
      cases ran
  · constructor
    · intro ran
      cases ran
      exact ⟨_, _, rfl, rfl, rfl⟩
    · rintro ⟨_, _, ran, rfl, rfl⟩
      cases ran
      rfl

section Strides

variable {request : Request} {allowance : Allowance} {matters : List Matter} {lookup : HostLookup}
  {next : Call} {resolver after : Resolver}

/-- Starting a pass that is under way already, or has ended, changes nothing of the `call`. -/
theorem Stride.of_started {type : RecordType} (run : NameResolution.Run)
    (mem : (type, run) ∈ lookup.race.runs)
    (started : run ≠ .unstarted) :
    Stride ⟨request, allowance, .racing lookup, .start type :: matters⟩ resolver
      ⟨request, allowance, .racing lookup, matters⟩ resolver := by
  refine .passes rfl nofun (fun other same nodup unstarted => ?_) nofun
  obtain rfl := Matter.start.inj same
  have one := List.inj_on_of_nodup_map nodup mem unstarted rfl
  exact started (Prod.mk.inj one).2

theorem stride_of_start {type : RecordType}
    (ran : goOn ⟨request, allowance, .racing lookup, matters⟩
      (do return .racing { lookup with race := ← lookup.race.startRun type }) resolver =
        (.ok next, after)) :
    Stride ⟨request, allowance, .racing lookup, .start type :: matters⟩ resolver next after := by
  obtain ⟨activity, session, went, rfl, rfl⟩ := goOn_eq_ok.mp ran
  obtain ⟨race, _, started, given⟩ := Op.bind_eq_ok.mp went
  cases given
  obtain ⟨runs, _, advanced, given⟩ := Op.bind_eq_ok.mp started
  cases given
  obtain ⟨rfl, rfl, none⟩ | ⟨front, own, run, back, later, split, none, fits, went, rfl⟩ :=
    Race.advanceRun_cases advanced
  · refine .passes rfl nofun (fun other same _ mem => ?_) nofun
    obtain rfl := Matter.start.inj same
    exact absurd (none _ mem) (by simp)
  obtain rfl : own = type := by simpa using fits
  -- Only a pass that has not been started is started; any other one stays what it is.
  cases run with
  | unstarted =>
    obtain ⟨progress, _, began, went⟩ := Op.bind_eq_ok.mp went
    cases went
    exact .starts rfl rfl split began
  | waiting pass =>
    cases went
    rw [← split]
    exact .of_started (.waiting pass) (split ▸ by simp) nofun
  | ended result =>
    cases went
    rw [← split]
    exact .of_started (.ended result) (split ▸ by simp) nofun

theorem stride_of_resume {serial : Nat} {event : Event}
    (ran : goOn ⟨request, allowance, .racing lookup, matters⟩
      (do return .racing { lookup with race := ← lookup.race.resumeRun serial event }) resolver =
        (.ok next, after)) :
    Stride ⟨request, allowance, .racing lookup, .event serial event :: matters⟩ resolver next
      after := by
  obtain ⟨activity, session, went, rfl, rfl⟩ := goOn_eq_ok.mp ran
  obtain ⟨race, _, resumed, given⟩ := Op.bind_eq_ok.mp went
  cases given
  obtain ⟨runs, _, advanced, given⟩ := Op.bind_eq_ok.mp resumed
  cases given
  have unfound {runs : Runs}
      (others : ∀ run ∈ runs, decide (run.2.serial? = some serial) = false) :
      runs.find? (fun run => run.2.serial? = some serial) = none :=
    List.find?_eq_none.mpr fun run mem => by rw [others run mem]; simp
  obtain ⟨rfl, rfl, others⟩ | ⟨front, type, run, back, later, split, others, fits, went, rfl⟩ :=
    Race.advanceRun_cases advanced
  · refine .passes rfl nofun nofun fun other _ same => ?_
    obtain ⟨rfl, -⟩ := Matter.event.inj same
    rw [addressee?, Activity.runs, unfound others]
    rfl
  · have found : addressee? ⟨request, allowance, .racing lookup, .event serial event :: matters⟩
        serial = run.pass? := by
      rw [addressee?, Activity.runs, split, List.find?_append, unfound others, List.find?_cons,
        fits]
      rfl
    cases run with
    | unstarted => cases of_decide_eq_true fits
    | ended result => cases of_decide_eq_true fits
    | waiting pass =>
      obtain ⟨progress, _, began, went⟩ := Op.bind_eq_ok.mp went
      cases went
      exact .resumes rfl rfl split found began

/-- A `matter` that does not concern the call changes nothing. -/
theorem Stride.of_strange {activity : Activity} {matter : Matter} (none : activity.runs = [])
    (begun : activity = .requested → matter ≠ .begin) :
    Stride ⟨request, allowance, activity, matter :: matters⟩ resolver
      ⟨request, allowance, activity, matters⟩ resolver :=
  .passes rfl begun (fun type _ _ => by simp [none]) fun serial event _ => by
    simp [addressee?, none]

theorem stride_of_attend {activity : Activity} {matter : Matter}
    (ran : attend ⟨request, allowance, activity, matters⟩ matter resolver = (.ok next, after)) :
    Stride ⟨request, allowance, activity, matter :: matters⟩ resolver next after := by
  cases activity with
  | requested =>
    cases matter with
    | begin =>
      cases request with
      | host name =>
        obtain ⟨middle, _, went, given⟩ := Op.bind_eq_ok.mp ran
        cases given
        obtain ⟨activity, session, began, rfl, rfl⟩ := goOn_eq_ok.mp went
        obtain ⟨progress, opened, rfl⟩ := Op.map_eq_ok.mp began
        exact .begins rfl rfl opened rfl
      | question name type =>
        have went : goOn ⟨.question name type, allowance, .requested, matters⟩
          (beginQuestion name type) resolver = (.ok next, after) := ran
        obtain ⟨activity, session, began, rfl, rfl⟩ := goOn_eq_ok.mp went
        exact .asks rfl rfl began
    | start type =>
      cases ran
      exact .of_strange rfl nofun
    | event serial event =>
      cases ran
      exact .of_strange rfl nofun
  | racing lookup =>
    cases matter with
    | begin =>
      cases ran
      exact .passes rfl nofun nofun nofun
    | start type => exact stride_of_start ran
    | event serial event => exact stride_of_resume ran
  | asking asked =>
    cases matter with
    | begin =>
      cases ran
      exact .of_strange rfl nofun
    | start type =>
      cases ran
      exact .of_strange rfl nofun
    | event serial event =>
      by_cases own : asked.query.serial = serial
      · have went : goOn ⟨request, allowance, .asking asked, matters⟩ (resumeQuestion asked event)
          resolver = (.ok next, after) := (congrFun (if_pos own).symm resolver).trans ran
        obtain ⟨activity, session, resumed, rfl, rfl⟩ := goOn_eq_ok.mp went
        exact .answers rfl rfl resumed
      · cases (congrFun (if_neg own).symm resolver).trans ran
        exact .of_strange rfl nofun
  | «over» result =>
    cases ran
    exact .of_strange rfl nofun

theorem stride_of_close {activity : Activity}
    (ran : closeRace ⟨request, allowance, activity, []⟩ resolver = (.ok (some next), after)) :
    Stride ⟨request, allowance, activity, []⟩ resolver next after := by
  cases activity with
  | racing lookup =>
    by_cases closes : lookup.race.AllEnded ∨ lookup.race.isWon
    · dsimp only [closeRace] at ran
      rw [if_pos closes] at ran
      obtain ⟨middle, _, went, given⟩ := Op.bind_eq_ok.mp ran
      cases given
      obtain ⟨activity, session, closed, rfl, rfl⟩ := goOn_eq_ok.mp went
      obtain ⟨progress, concluded, rfl⟩ := Op.map_eq_ok.mp closed
      exact .closes rfl rfl concluded
    · dsimp only [closeRace] at ran
      rw [if_neg closes] at ran
      cases ran
  | requested => cases ran
  | asking asked => cases ran
  | «over» result => cases ran

end Strides

/-- Every `step` that a `call` takes is a `Stride`. -/
theorem stride_of_step {call next : Call} {resolver after : Resolver}
    (ran : call.step resolver = (.ok (some next), after)) : Stride call resolver next after := by
  obtain ⟨request, allowance, activity, matters⟩ := call
  cases matters with
  | nil => exact stride_of_close ran
  | cons matter matters =>
    obtain ⟨middle, _, went, given⟩ := Op.bind_eq_ok.mp ran
    cases given
    exact stride_of_attend went

/-- A `call` that rests has nothing to attend to, and its `race` goes on. -/
theorem of_rests {call : Call} {resolver after : Resolver}
    (rests : call.step resolver = (.ok none, after)) : call.matters = [] ∧
      ∀ lookup, call.activity = .racing lookup → ¬lookup.race.AllEnded := by
  obtain ⟨request, allowance, activity, matters⟩ := call
  cases matters with
  | nil =>
    refine ⟨rfl, ?_⟩
    rintro lookup rfl ended
    dsimp only [step, closeRace] at rests
    rw [if_pos (.inl ended)] at rests
    obtain ⟨_, _, _, given⟩ := Op.bind_eq_ok.mp rests
    cases given
  | cons matter matters =>
    obtain ⟨_, _, _, given⟩ := Op.bind_eq_ok.mp rests
    cases given

end Call

end NameResolution
