import NameResolution.Proofs.Resolution.Courses
import NameResolution.Proofs.Resolution.PassRefusals

/-!
# Lookups that are refused a query

A lookup whose budget is used up is refused its next query, and should fail for this reason.

* `Call.Refused`: the next step of a call is refused a query because the budget is used up.
* `Call.Candid`: such a step does not conceal the refusal. It does not ask for a bare alias, for which
  the earlier failure counts, and where it looks for addresses of servers, it knows one already.
* `Call.Doomed`: what stays true of a lookup that was refused a query.
* `Call.exhausted_of_refused`: how a lookup fails that was refused a query.
* `Call.concealed_of_refused_bare`: a lookup that conceals the refusal.
-/

namespace NameResolution

section

variable {types : List RecordType}

/-! ## Races -/

/-- Nothing about the `pass` tells of a query that was cancelled. -/
def Run.Clean : Run → Prop
  | unstarted => True
  | waiting pass => (Progress.waiting pass).Clean
  | ended result => Unbroken result

/-- One of the `runs` has been refused a query. -/
def Race.HasRefused (runs : Runs) : Prop :=
  ∃ type, (type, .ended (.error .budgetExhausted)) ∈ runs

theorem Run.clean_ofProgress {progress : Progress} (clean : progress.Clean) :
    (ofProgress progress).Clean := by
  cases progress with
  | finished result => exact clean
  | waiting pass => exact clean

namespace Race

/-- The `run` that goes on decides whether a query is refused. -/
theorem parallelAt_advanceRun {fits : RecordType → Run → Bool}
    {advance : RecordType → Run → Op Session Run} {runs : Runs} {session : Session}
    (serves : session.resolver.Serves types) (clean : ∀ run ∈ runs, run.2.Clean) (condition : Prop)
    (each : ∀ run, runs.find? (fun run => fits run.1 run.2) = some run →
      Session.ParallelAt types session (advance run.1 run.2) Run.Clean fun later =>
        later.Clean ∧ (condition → later = .ended (.error .budgetExhausted))) :
    Session.ParallelAt types session (advanceRun fits advance runs)
      (fun next => ∀ run ∈ next, run.2.Clean)
      fun next => (∀ run ∈ next, run.2.Clean) ∧ (condition → HasRefused next) := by
  -- The induction is on the passes in front of the first one that fits.
  induction runs with
  | nil => exact Session.Parallel.pure (List.forall_mem_nil _) session serves
  | cons run runs ih =>
    obtain ⟨type, run⟩ := run
    obtain ⟨own, rest⟩ := List.forall_mem_cons.mp clean
    unfold advanceRun
    by_cases fit : fits type run = true
    · rw [if_pos fit]
      refine (each (type, run) (List.find?_cons_of_pos fit)).map ?_ ?_
      · exact fun later kept => List.forall_mem_cons.mpr ⟨kept, rest⟩
      · rintro later ⟨kept, refused⟩
        exact ⟨List.forall_mem_cons.mpr ⟨kept, rest⟩, fun holds =>
          ⟨type, refused holds ▸ List.mem_cons_self⟩⟩
    · rw [if_neg fit]
      have others : ((type, run) :: runs).find? (fun run => fits run.1 run.2) =
          runs.find? fun run => fits run.1 run.2 := List.find?_cons_of_neg fit
      refine (ih rest fun other found => each other (others.trans found)).map ?_ ?_
      · exact fun later kept => List.forall_mem_cons.mpr ⟨own, kept⟩
      · rintro later ⟨kept, refused⟩
        refine ⟨List.forall_mem_cons.mpr ⟨own, kept⟩, fun holds => ?_⟩
        obtain ⟨other, among⟩ := refused holds
        exact ⟨other, List.mem_cons_of_mem _ among⟩

/-- What a `race` does about a `Matter`. -/
def attend (race : Race) : Matter → Op Session Race
  | .begin => pure race
  | .start type => race.startRun type
  | .event serial event => race.resumeRun serial event

/-- The `Pass` that an event of a query concerns. -/
def addressee? (race : Race) (serial : Nat) : Option Pass :=
  (race.runs.find? fun run => run.2.serial? = some serial).bind (·.2.pass?)

/-- The pass that goes on, if any, is `Stocked`. -/
def Stocked (types : List RecordType) (race : Race) (registry : Registry) (matter : Matter) :
    Prop :=
  ∀ serial event pass, matter = .event serial event → race.addressee? serial = some pass →
    pass.Stocked types registry event

theorem parallelAt_startRun {race : Race} {session : Session}
    (serves : session.resolver.Serves types) (clean : ∀ run ∈ race.runs, run.2.Clean)
    (type : RecordType) (condition : Prop) :
    Session.ParallelAt types session (race.startRun type)
      (fun next => ∀ run ∈ next.runs, run.2.Clean)
      fun next => (∀ run ∈ next.runs, run.2.Clean) ∧ (condition → HasRefused next.runs) := by
  refine (parallelAt_advanceRun serves clean condition fun run found => ?_).map
    (fun _ => id) fun _ => id
  have own := clean run (List.mem_of_find?_eq_some found)
  obtain ⟨type, run⟩ := run
  cases run with
  | unstarted =>
    refine (Pass.parallel_start race.name type session serves).map
      (fun _ => Run.clean_ofProgress) ?_
    rintro _ rfl
    exact ⟨unbroken_error (fun same => nomatch same), fun _ => rfl⟩
  | waiting pass => exact Session.Parallel.pure own session serves
  | ended result => exact Session.Parallel.pure own session serves

theorem parallelAt_resumeRun {race : Race} {session : Session}
    (serves : session.resolver.Serves types) (clean : ∀ run ∈ race.runs, run.2.Clean)
    (held : ∀ serial ∈ race.serials, session.resolver.registry.fate serial ≠ .gone)
    (serial : Nat) (event : Event) :
    Session.ParallelAt types session (race.resumeRun serial event)
      (fun next => ∀ run ∈ next.runs, run.2.Clean)
      fun next => (∀ run ∈ next.runs, run.2.Clean) ∧
        (race.Stocked types session.resolver.registry (.event serial event) →
          HasRefused next.runs) := by
  refine (parallelAt_advanceRun serves clean _ fun run found => ?_).map (fun _ => id) fun _ => id
  have member := List.mem_of_find?_eq_some found
  have own := clean run member
  obtain ⟨type, run⟩ := run
  cases run with
  | waiting pass =>
    have known := held pass.asked.query.serial (List.mem_filterMap.mpr ⟨_, member, rfl⟩)
    refine (Pass.parallel_resume own event serves known).map (fun _ => Run.clean_ofProgress) ?_
    rintro _ ⟨_, rfl, failure, rfl, other, exhausted⟩
    refine ⟨unbroken_error other, fun stocked => ?_⟩
    have addressed : race.addressee? serial = some pass := by
      unfold addressee?
      rw [found]
      rfl
    rw [exhausted (stocked serial event pass rfl addressed)]
    rfl
  | unstarted => exact Session.Parallel.pure own session serves
  | ended result => exact Session.Parallel.pure own session serves

theorem parallelAt_attend {race : Race} {session : Session}
    (serves : session.resolver.Serves types) (clean : ∀ run ∈ race.runs, run.2.Clean)
    (held : ∀ serial ∈ race.serials, session.resolver.registry.fate serial ≠ .gone)
    (matter : Matter) :
    Session.ParallelAt types session (race.attend matter)
      (fun next => ∀ run ∈ next.runs, run.2.Clean)
      fun next => (∀ run ∈ next.runs, run.2.Clean) ∧
        (race.Stocked types session.resolver.registry matter → HasRefused next.runs) := by
  cases matter with
  | begin => exact Session.Parallel.pure clean session serves
  | start type => exact parallelAt_startRun serves clean type _
  | event serial event => exact parallelAt_resumeRun serves clean held serial event

/-- A pass that has `ended` stays so while another one of the race advances. -/
theorem mem_of_advanceRun {fits : RecordType → Run → Bool}
    {advance : RecordType → Run → Op Session Run} {runs next : Runs} {before after : Session}
    (ran : advanceRun fits advance runs before = (.ok next, after))
    (stays : ∀ type result, advance type (.ended result) = pure (.ended result))
    {type : RecordType} {result : Except Failure Answer} (ended : (type, .ended result) ∈ runs) :
    (type, .ended result) ∈ next := by
  obtain ⟨rfl, -⟩ | ⟨front, own, run, back, later, rfl, -, -, went, rfl⟩ := advanceRun_cases ran
  · exact ended
  · obtain same | among := List.mem_cons.mp (List.perm_middle.subset ended)
    · obtain ⟨rfl, rfl⟩ := Prod.mk.inj same
      rw [stays] at went
      cases went
      exact List.mem_append_right _ List.mem_cons_self
    · exact List.perm_middle.symm.subset (List.mem_cons_of_mem _ among)

theorem mem_of_attend {race next : Race} {matter : Matter} {before after : Session}
    (ran : race.attend matter before = (.ok next, after)) {type : RecordType}
    {result : Except Failure Answer} (ended : (type, .ended result) ∈ race.runs) :
    (type, .ended result) ∈ next.runs := by
  cases matter with
  | begin =>
    cases ran
    exact ended
  | start own =>
    obtain ⟨runs, _, advanced, given⟩ := Op.bind_eq_ok.mp ran
    cases given
    exact mem_of_advanceRun advanced (fun _ _ => rfl) ended
  | event serial event =>
    obtain ⟨runs, _, advanced, given⟩ := Op.bind_eq_ok.mp ran
    cases given
    exact mem_of_advanceRun advanced (fun _ _ => rfl) ended

/-- If no query was cancelled, `countingFailure` is a refused query whenever there is one. -/
theorem countingFailure_of_refused {results : List (Except Failure Answer)}
    (clean : ∀ result ∈ results, Unbroken result) {first : Option Failure}
    (refused : first = some .budgetExhausted ∨ .error .budgetExhausted ∈ results) :
    countingFailure first results = some .budgetExhausted := by
  induction results generalizing first with
  | nil => exact refused.resolve_right List.not_mem_nil
  | cons result results ih =>
    obtain ⟨own, rest⟩ := List.forall_mem_cons.mp clean
    cases result with
    | ok answer => exact ih rest (refused.imp_right fun mem => by simpa using mem)
    | error failure =>
      refine ih rest ?_
      by_cases same : failure = .budgetExhausted
      · rw [same]
        exact .inl (if_pos (.inr rfl))
      · refine refused.imp (fun counts => ?_) fun mem => ?_
        · -- Another failure only takes the place of the first one if it is final, which this one is
          -- not.
          have passing : isFinal failure = false := by
            unfold isFinal
            split
            · exact absurd rfl same
            · exact absurd rfl own.ne
            · rfl
          rw [counts]
          exact if_neg (by simp [passing])
        · obtain again | among := List.mem_cons.mp mem
          · exact absurd (Except.error.inj again).symm same
          · exact among

theorem failure_of_refused {race : Race} (clean : ∀ run ∈ race.runs, run.2.Clean)
    (refused : HasRefused race.runs) {failure : Failure}
    (fails : race.addresses = .error failure) : failure = .budgetExhausted := by
  have among : ∀ result ∈ race.results, Unbroken result := by
    intro result member
    obtain ⟨⟨type, run⟩, here, own⟩ := List.mem_filterMap.mp member
    cases run with
    | ended other =>
      obtain rfl := Option.some.inj own
      exact clean _ here
    | unstarted => cases own
    | waiting pass => cases own
  obtain ⟨type, here⟩ := refused
  have counts : countingFailure none race.results = some .budgetExhausted :=
    countingFailure_of_refused among (.inr (List.mem_filterMap.mpr ⟨_, here, rfl⟩))
  simp only [addresses, counts, Option.getD_some] at fails
  split at fails
  · split at fails
    · exact (Except.error.inj fails).symm
    · cases fails
  · exact (Except.error.inj fails).symm

end Race

/-! ## Host lookups -/

namespace HostLookup

theorem keeps_settle {inv : Session → Prop} (search : Option Search)
    (result : Except Failure FoundHosts) : Op.Keeps inv (settle search result) fun _ => True := by
  unfold settle
  split
  · split
    · exact .pure trivial
    · rename_i failure search _
      refine .of_state fun session kept => ?_
      have same := (races_tryNext search.relative (some failure) search.suffixes).after
        (rfl : session = session)
      rwa [same]
  · exact .pure trivial

/-- Closing a `race` changes the `resolver` by giving the race up, and what the call may still do by
asking for a bare alias. -/
theorem keeps_conclude {inv : Session → Prop} (lookup : HostLookup)
    (drops : ∀ session, inv session →
      inv { session with resolver := (lookup.race.drop session.resolver).2 })
    (asks : ∀ session, inv session →
      inv { session with allowance := { session.allowance with aliasAsked := true } }) :
    Op.Keeps inv lookup.conclude fun _ => True := by
  have askAlias (failure : Failure) : Op.Keeps inv (lookup.askAlias failure) fun _ => True := by
    refine Op.Keeps.get.bind fun session kept => ?_
    dsimp only
    split
    · refine Op.Keeps.bind (P := fun _ => True) (.of_state fun _ _ => ?_) fun _ _ => .pure trivial
      exact asks session kept
    · exact keeps_settle _ _
  have followAlias (failure : Failure) :
      Op.Keeps inv (lookup.followAlias failure) fun _ => True := by
    unfold followAlias
    split
    · split
      · exact keeps_settle _ _
      · exact Op.Keeps.bind (P := fun _ => True) (.of_state fun _ => id) fun _ _ => .pure trivial
    · exact keeps_settle _ _
  refine Op.Keeps.bind (P := fun _ => True) (.of_state drops) fun _ _ => ?_
  split
  · split
    · exact keeps_settle _ _
    · exact askAlias _
  · exact followAlias _
  · exact keeps_settle _ _

theorem settle_of_refused (search : Option Search) :
    settle search (.error .budgetExhausted) = pure (.finished (.error .budgetExhausted)) := by
  cases search <;> rfl

theorem askAlias_of_refused (lookup : HostLookup) (session : Session) :
    lookup.askAlias .budgetExhausted session =
      (.ok (.finished (.error .budgetExhausted)), session) := by
  have final : ¬(leavesAliasOpen .budgetExhausted = true ∧ ¬session.allowance.aliasAsked) :=
    fun left => Bool.false_ne_true left.1
  simp only [askAlias, Op.bind_apply, Op.get_apply, if_neg final, settle_of_refused]
  rfl

/-- A `lookup` that was refused a query while it looked for addresses ends when its `race` is
closed. If it fails, then for this reason. -/
theorem ends_of_refused {lookup : HostLookup} (plain : ¬lookup.AsksAlias)
    (clean : ∀ run ∈ lookup.race.runs, run.2.Clean) (refused : Race.HasRefused lookup.race.runs)
    {progress : HostProgress} {before after : Session}
    (ran : lookup.conclude before = (.ok progress, after)) :
    ∃ result, progress = .finished result ∧
      ∀ failure, result = .error failure → failure = .budgetExhausted := by
  obtain ⟨_, session, -, ran⟩ := Op.bind_eq_ok.mp ran
  -- A race for addresses that fails does so because of the refusal, which ends the lookup.
  cases purpose : lookup.purpose with
  | aliasQuestion failure => exact absurd ⟨failure, purpose⟩ plain
  | addresses =>
    rw [purpose] at ran
    cases found : lookup.race.addresses with
    | ok hosts =>
      rw [found] at ran
      cases ran
      exact ⟨_, rfl, fun _ same => nomatch same⟩
    | error failure =>
      obtain rfl := Race.failure_of_refused clean refused found
      rw [found] at ran
      cases (lookup.askAlias_of_refused session).symm.trans ran
      exact ⟨_, rfl, fun _ same => (Except.error.inj same).symm⟩
  | aliasAddresses =>
    rw [purpose] at ran
    cases found : lookup.race.addresses with
    | ok hosts =>
      rw [found] at ran
      cases ran
      exact ⟨_, rfl, fun _ same => nomatch same⟩
    | error failure =>
      obtain rfl := Race.failure_of_refused clean refused found
      rw [found] at ran
      cases (congrFun (settle_of_refused lookup.search) session).symm.trans ran
      exact ⟨_, rfl, fun _ same => (Except.error.inj same).symm⟩

end HostLookup

/-! ## Calls -/

/-- The `Resolver` goes on, open and with its settings. -/
structure Resolver.GoesOn (before after : Resolver) : Prop where
  closed : after.closed = before.closed
  settings : after.settings = before.settings

theorem Resolver.Serves.goesOn {before after : Resolver} (serves : before.Serves types)
    (on : before.GoesOn after) : after.Serves types :=
  ⟨on.closed.trans serves.opened, by rw [on.settings, serves.types]⟩

namespace Call

/-- The `call` with one more query in its budget. -/
def spare (call : Call) : Call := { call with allowance := call.allowance.spare }

/-- The next step of the `call` is refused a query because the budget is used up: with one more
query in its budget, the call would take it. -/
def Refused (call : Call) (resolver : Resolver) : Prop :=
  ∃ next after, call.spare.step resolver = (.ok (some next), after) ∧
    next.allowance.budget.remaining = 0

/-- The next step of the `call` does not ask for a bare alias, and a pass that looks for addresses
of servers there knows one to go on with. -/
structure Candid (types : List RecordType) (call : Call) (resolver : Resolver) : Prop where
  plain {lookup : HostLookup} (racing : call.activity = .racing lookup) : ¬lookup.AsksAlias
  stocked {lookup : HostLookup} {matter : Matter} {matters : List Matter}
    (racing : call.activity = .racing lookup) (first : call.matters = matter :: matters) :
    lookup.race.Stocked types resolver.registry matter

/-- A `lookup` of a `host`, of which nothing tells of a query that was cancelled. -/
inductive Clean (call : Call) : Prop
  | idle {host : String} (idle : call.activity = .requested) (asks : call.request = .host host)
  | racing {lookup : HostLookup} (racing : call.activity = .racing lookup)
    (clean : ∀ run ∈ lookup.race.runs, run.2.Clean)
  | over {result : Except Failure Found} (ended : call.activity = .over result)

/-- A `lookup` that was refused a query. If it fails, then for this reason. -/
inductive Doomed (call : Call) : Prop
  | racing {lookup : HostLookup} (racing : call.activity = .racing lookup)
    (plain : ¬lookup.AsksAlias) (clean : ∀ run ∈ lookup.race.runs, run.2.Clean)
    (refused : Race.HasRefused lookup.race.runs)
  | over {result : Except Failure Found} (ended : call.activity = .over result)
    (fails : ∀ failure, result = .error failure → failure = .budgetExhausted)

/-- The steps of a `lookup`. -/
inductive LookupStep (call : Call) (resolver : Resolver) : Call → Resolver → Prop
  | begins {host : String} {progress : HostProgress} {session : Session}
    (idle : call.activity = .requested)
    (ran : HostLookup.begin host (call.session resolver) = (.ok progress, session)) :
    LookupStep call resolver (call.goingOn (ofHost progress) session).enterRace session.resolver
  | attends {lookup : HostLookup} {matter : Matter} {matters : List Matter} {race : Race}
    {session : Session} (racing : call.activity = .racing lookup)
    (first : call.matters = matter :: matters)
    (ran : lookup.race.attend matter (call.session resolver) = (.ok race, session)) :
    LookupStep call resolver (call.goingOn (.racing { lookup with race := race }) session)
      session.resolver
  | closes {lookup : HostLookup} {progress : HostProgress} {session : Session}
    (racing : call.activity = .racing lookup) (rests : call.matters = [])
    (ran : lookup.conclude (call.session resolver) = (.ok progress, session)) :
    LookupStep call resolver (call.goingOn (ofHost progress) session).enterRace session.resolver
  | passes {matter : Matter} {matters : List Matter} (first : call.matters = matter :: matters)
    (strange : ∀ lookup, call.activity ≠ .racing lookup) :
    LookupStep call resolver { call with matters := matters } resolver

variable {call next : Call} {resolver after : Resolver}

theorem attends_of_step {lookup : HostLookup} {matter : Matter} {matters : List Matter}
    (racing : call.activity = .racing lookup) (first : call.matters = matter :: matters)
    (ran : call.step resolver = (.ok (some next), after)) :
    LookupStep call resolver next after := by
  obtain ⟨request, allowance, activity, own⟩ := call
  obtain rfl : activity = .racing lookup := racing
  obtain rfl : own = matter :: matters := first
  obtain ⟨middle, _, went, given⟩ := Op.bind_eq_ok.mp ran
  cases given
  cases matter with
  | begin =>
    cases went
    have attended : lookup.race.attend .begin (session
      ⟨request, allowance, .racing lookup, .begin :: matters⟩ resolver) =
        (.ok lookup.race, ⟨resolver, allowance⟩) := rfl
    exact .attends rfl rfl attended
  | start type =>
    have goes : goOn ⟨request, allowance, .racing lookup, matters⟩
      (do return .racing { lookup with race := ← lookup.race.startRun type }) resolver =
        (.ok next, after) := went
    obtain ⟨activity, session, raced, rfl, rfl⟩ := goOn_eq_ok.mp goes
    obtain ⟨race, _, started, given⟩ := Op.bind_eq_ok.mp raced
    cases given
    exact .attends rfl rfl started
  | event serial event =>
    have goes : goOn ⟨request, allowance, .racing lookup, matters⟩
      (do return .racing { lookup with race := ← lookup.race.resumeRun serial event }) resolver =
        (.ok next, after) := went
    obtain ⟨activity, session, raced, rfl, rfl⟩ := goOn_eq_ok.mp goes
    obtain ⟨race, _, resumed, given⟩ := Op.bind_eq_ok.mp raced
    cases given
    exact .attends rfl rfl resumed

/-- Every `step` that a lookup takes is one of these. -/
theorem Clean.lookupStep (clean : call.Clean)
    (ran : call.step resolver = (.ok (some next), after)) : LookupStep call resolver next after := by
  cases clean with
  | idle idle asks =>
    -- Of the strides only those fit that begin where the lookup stands.
    cases stride_of_step ran with
    | begins _ first began => exact .begins idle began
    | asks _ first =>
      obtain ⟨progress, session, began, same, same'⟩ := begins_of_step asks idle first ran
      rw [same, same']
      exact .begins idle began
    | starts racing => cases idle.symm.trans racing
    | resumes racing => cases idle.symm.trans racing
    | answers asking => cases idle.symm.trans asking
    | closes racing => cases idle.symm.trans racing
    | passes first => exact .passes first fun lookup racing => nomatch idle.symm.trans racing
  | @racing lookup racing =>
    cases matters : call.matters with
    | nil =>
      obtain ⟨-, progress, session, concluded, rfl, rfl⟩ := closes_of_step racing matters ran
      exact .closes racing matters concluded
    | cons matter rest => exact attends_of_step racing matters ran
  | «over» ended =>
    obtain ⟨matter, matters, first, rfl, rfl⟩ := passes_of_step ended ran
    exact .passes first fun lookup racing => nomatch ended.symm.trans racing

theorem Clean.spare (clean : call.Clean) : call.spare.Clean := by
  cases clean with
  | idle idle asks => exact .idle idle asks
  | racing racing clean => exact .racing racing clean
  | «over» ended => exact .over ended

/-- Giving a `race` up leaves the `resolver` open, and its settings as they are. -/
theorem serves_drop (race : Race) {resolver : Resolver} (serves : resolver.Serves types) :
    (race.drop resolver).2.Serves types :=
  race.holds_drop (fun _ _ kept => ⟨kept.opened, kept.types⟩) serves

/-- A `lookup` is refused a query only while it attends to a `matter`. -/
theorem Refused.attends (clean : call.Clean) (refused : call.Refused resolver) :
    ∃ lookup matter matters race session, call.activity = .racing lookup ∧
      call.matters = matter :: matters ∧
      lookup.race.attend matter (call.session resolver).spare = (.ok race, session) ∧
      session.Dry := by
  obtain ⟨next, after, ran, dry⟩ := refused
  have spared : call.spare.allowance.budget.remaining ≠ 0 := Nat.succ_ne_zero _
  cases clean.spare.lookupStep ran with
  | begins idle began =>
    obtain ⟨rfl, -⟩ := (HostLookup.races_begin _).ensures _ rfl _ _ began
    rw [allowance_enterRace] at dry
    exact absurd dry spared
  | attends racing first attended => exact ⟨_, _, _, _, _, racing, first, attended, dry⟩
  | @closes lookup progress session racing rests concluded =>
    have keeps : Op.Keeps (fun session => session.allowance.budget = call.spare.allowance.budget)
        lookup.conclude fun _ => True := lookup.keeps_conclude (fun _ => id) fun _ => id
    obtain ⟨same, -⟩ := keeps.ensures _ rfl _ _ concluded
    rw [allowance_enterRace] at dry
    exact absurd (same ▸ dry) spared
  | passes first strange => exact absurd dry spared

/-- The passes of a new `race` have not been started. -/
theorem clean_of_begins {lookup : HostLookup} (begins : lookup.Begins) :
    ∀ run ∈ lookup.race.runs, run.2.Clean := by
  obtain ⟨types, -, runs⟩ := begins
  intro run member
  rw [runs] at member
  obtain ⟨type, -, rfl⟩ := List.mem_map.mp member
  trivial

theorem clean_enterRace {progress : HostProgress}
    (begins : ∀ lookup, progress = .racing lookup → lookup.Begins) (session : Session) :
    (call.goingOn (ofHost progress) session).enterRace.Clean := by
  cases progress with
  | finished result => exact .over (activity_enterRace _)
  | racing lookup => exact .racing (activity_enterRace _) (clean_of_begins (begins lookup rfl))

theorem parallelAt_attend {lookup : HostLookup} (racing : call.activity = .racing lookup)
    (clean : ∀ run ∈ lookup.race.runs, run.2.Clean) (serves : resolver.Serves types)
    (held : call.Held resolver) (matter : Matter) :
    Session.ParallelAt types (call.session resolver) (lookup.race.attend matter)
      (fun next => ∀ run ∈ next.runs, run.2.Clean)
      fun next => (∀ run ∈ next.runs, run.2.Clean) ∧
        (lookup.race.Stocked types resolver.registry matter → Race.HasRefused next.runs) := by
  refine Race.parallelAt_attend serves clean (fun serial waits => held serial ?_) matter
  rwa [serials, racing]

/-- Passes that `attend` lets go on are `Clean`, as long as all were. -/
theorem clean_of_attend {lookup : HostLookup} (racing : call.activity = .racing lookup)
    (clean : ∀ run ∈ lookup.race.runs, run.2.Clean) (serves : resolver.Serves types)
    (held : call.Held resolver) {matter : Matter} {race : Race} {session : Session}
    (ran : lookup.race.attend matter (call.session resolver) = (.ok race, session)) :
    (∀ run ∈ race.runs, run.2.Clean) ∧ session.resolver.Serves types := by
  obtain ⟨result, after, own, -, kept, holds⟩ | ⟨spent, gives, -⟩ :=
    parallelAt_attend racing clean serves held matter
  · cases own.symm.trans ran
    exact ⟨holds race rfl, kept⟩
  · rw [ran] at spent gives
    exact ⟨(gives race rfl).1, spent.serves⟩

theorem serves_of_conclude {lookup : HostLookup} (serves : resolver.Serves types)
    {progress : HostProgress} {session : Session}
    (ran : lookup.conclude (call.session resolver) = (.ok progress, session)) :
    session.resolver.Serves types := by
  have keeps : Op.Keeps (fun session => session.resolver.Serves types) lookup.conclude
      fun _ => True := lookup.keeps_conclude (fun _ => serves_drop lookup.race) fun _ => id
  exact (keeps.ensures _ serves _ _ ran).1

theorem Clean.step (clean : call.Clean) (serves : resolver.Serves types)
    (held : call.Held resolver) (ran : call.step resolver = (.ok (some next), after)) :
    next.Clean ∧ after.Serves types := by
  cases clean.lookupStep ran with
  | begins idle began =>
    obtain ⟨rfl, -⟩ := (HostLookup.races_begin _).ensures _ rfl _ _ began
    refine ⟨clean_enterRace (fun lookup same => ?_) _, serves⟩
    exact ((HostLookup.yields_begin _ _ _ _ began).2 lookup same).1
  | attends racing first attended =>
    cases clean with
    | idle idle => cases idle.symm.trans racing
    | «over» ended => cases ended.symm.trans racing
    | racing own clean =>
      obtain rfl := Activity.racing.inj (own.symm.trans racing)
      obtain ⟨kept, serves⟩ := clean_of_attend own clean serves held attended
      exact ⟨.racing rfl kept, serves⟩
  | closes racing rests concluded =>
    refine ⟨clean_enterRace (fun lookup same => ?_) _, serves_of_conclude serves concluded⟩
    subst same
    exact (HostLookup.conclude_cases concluded).begins.1
  | passes first strange =>
    refine ⟨?_, serves⟩
    cases clean with
    | idle idle asks => exact .idle idle asks
    | racing racing clean => exact .racing racing clean
    | «over» ended => exact .over ended

/-- A lookup that is refused a query has none left. If it does not conceal it, it is `Doomed`. -/
theorem Clean.refused (clean : call.Clean) (serves : resolver.Serves types)
    (held : call.Held resolver) (ran : call.step resolver = (.ok (some next), after))
    (refused : call.Refused resolver) :
    next.allowance.budget.remaining = 0 ∧ (call.Candid types resolver → next.Doomed) := by
  obtain ⟨lookup, matter, matters, race, twin, racing, first, spared, dry⟩ :=
    refused.attends clean
  cases clean.lookupStep ran with
  | begins idle => cases idle.symm.trans racing
  | closes _ rests => cases rests.symm.trans first
  | passes _ strange => exact absurd racing (strange lookup)
  | attends own again attended =>
    obtain rfl := Activity.racing.inj (racing.symm.trans own)
    obtain ⟨rfl, -⟩ := List.cons.inj (first.symm.trans again)
    cases clean with
    | idle idle => cases idle.symm.trans racing
    | «over» ended => cases ended.symm.trans racing
    | racing own clean =>
      obtain rfl := Activity.racing.inj (own.symm.trans racing)
      obtain ⟨result, after, -, same, -⟩ | ⟨spent, gives, -⟩ :=
        parallelAt_attend own clean serves held matter
      · -- With one more query the step would not have used it up: nothing is refused here.
        cases same.symm.trans spared
        have left : after.allowance.budget.remaining + 1 = 0 := dry
        omega
      · rw [attended] at spent gives
        obtain ⟨kept, has⟩ := gives _ rfl
        refine ⟨spent.remaining, fun candid => ?_⟩
        have plain := candid.plain racing
        exact .racing rfl plain kept (has (candid.stocked racing first))

theorem Doomed.clean (doomed : call.Doomed) : call.Clean := by
  cases doomed with
  | racing racing plain clean refused => exact .racing racing clean
  | «over» ended fails => exact .over ended

/-- A `Doomed` lookup stays doomed. -/
theorem Doomed.step (doomed : call.Doomed) (serves : resolver.Serves types)
    (held : call.Held resolver) (ran : call.step resolver = (.ok (some next), after)) :
    next.Doomed := by
  -- A refused pass stays among those that have ended until the race is closed, which ends the
  -- lookup.
  cases doomed.clean.lookupStep ran with
  | begins idle =>
    cases doomed with
    | racing racing => cases idle.symm.trans racing
    | «over» ended => cases idle.symm.trans ended
  | attends racing first attended =>
    cases doomed with
    | «over» ended => cases ended.symm.trans racing
    | racing own plain clean refused =>
      obtain rfl := Activity.racing.inj (racing.symm.trans own)
      obtain ⟨type, ended⟩ := refused
      exact .racing rfl plain (clean_of_attend own clean serves held attended).1
        ⟨type, Race.mem_of_attend attended ended⟩
  | closes racing rests concluded =>
    cases doomed with
    | «over» ended => cases ended.symm.trans racing
    | racing own plain clean refused =>
      obtain rfl := Activity.racing.inj (racing.symm.trans own)
      obtain ⟨result, rfl, fails⟩ := HostLookup.ends_of_refused plain clean refused concluded
      refine .over (activity_enterRace _) fun failure same => ?_
      cases result with
      | ok found => cases same
      | error own => exact Except.error.inj same ▸ fails own rfl
  | passes first strange =>
    cases doomed with
    | racing racing => exact absurd racing (strange _)
    | «over» ended fails => exact .over ended fails

/-! ### Runs -/

theorem Clean.notify (clean : call.Clean) (serial : Nat) (event : Event) :
    (call.notify serial event).Clean := by
  cases clean with
  | idle idle asks => exact .idle idle asks
  | racing racing clean => exact .racing racing clean
  | «over» ended => exact .over ended

theorem Doomed.notify (doomed : call.Doomed) (serial : Nat) (event : Event) :
    (call.notify serial event).Doomed := by
  cases doomed with
  | racing racing plain clean refused => exact .racing racing plain clean refused
  | «over» ended fails => exact .over ended fails

theorem clean_of_course {first : Call} {begun : Resolver} {sent : List Datagram}
    (clean : first.Clean) (serves : begun.Serves types)
    (course : Course Resolver.GoesOn Held first begun call resolver sent) :
    call.Clean ∧ resolver.Serves types := by
  induction course with
  | starts => exact ⟨clean, serves⟩
  | hears course serial event ih => exact ⟨ih.1.notify serial event, ih.2⟩
  | meanwhile course changed ih => exact ⟨ih.1, ih.2.goesOn changed⟩
  | steps course held ran sends ih => exact ih.1.step ih.2 held ran

theorem doomed_of_course {first : Call} {begun : Resolver} {sent : List Datagram}
    (doomed : first.Doomed) (serves : begun.Serves types)
    (course : Course Resolver.GoesOn Held first begun call resolver sent) : call.Doomed := by
  induction course with
  | starts => exact doomed
  | hears course serial event ih => exact ih.notify serial event
  | meanwhile course changed ih => exact ih
  | steps course held ran sends ih =>
    exact ih.step (clean_of_course doomed.clean serves course).2 held ran

/-- A `call` that has no query left does not come by one. -/
theorem dry_of_course {first : Call} {begun : Resolver} {sent : List Datagram}
    (dry : first.allowance.budget.remaining = 0)
    (course : Course Resolver.GoesOn Held first begun call resolver sent) :
    call.allowance.budget.remaining = 0 := by
  induction course with
  | starts => exact dry
  | hears course serial event ih => exact ih
  | meanwhile course changed ih => exact ih
  | @steps call next resolver after sent more course held ran sends ih =>
    obtain ⟨datagrams, -, -, paid⟩ := spends_perform call .step resolver
    have result : (call.perform .step resolver).1 = .ok next := by
      rw [perform, Op.map_apply, ran]
      rfl
    have := (paid next result).2
    omega

/-- If a lookup of a `host` is `Refused` a query because its `budget` is used up, and it fails, then
it has made as many `attempts` as its budget has queries. If the step is `Candid`, so that it does
not conceal the refusal, the `failure` is that the budget is used up. -/
theorem exhausted_of_refused {host : String} {budget : Nat} {begun last : Resolver} {final : Call}
    {sent more : List Datagram} {error : ResolveError} (opened : begun.closed = false)
    (earlier : Course Resolver.GoesOn Held (.new (.host host) budget) begun call resolver sent)
    (held : call.Held resolver) (refused : call.Refused resolver)
    (ran : call.step resolver = (.ok (some next), after))
    (later : Course Resolver.GoesOn Held next after final last more)
    (fails : final.result? = some (.error error)) :
    error.attempts = error.budget ∧
      (call.Candid begun.settings.preference.types resolver → error.failure = .budgetExhausted) := by
  obtain ⟨clean, serves⟩ := clean_of_course (.idle rfl rfl) ⟨opened, rfl⟩ earlier
  -- The step uses up the budget, and from then on the call is doomed whatever follows.
  obtain ⟨dry, dooms⟩ := clean.refused serves held ran refused
  have dry := dry_of_course dry later
  obtain ⟨request, allowance, activity, matters⟩ := final
  cases activity with
  | requested => cases fails
  | racing lookup => cases fails
  | asking asked => cases fails
  | «over» result =>
    cases result with
    | ok found => cases fails
    | error failure =>
      cases fails
      refine ⟨?_, fun candid => ?_⟩
      · show allowance.budget.total - allowance.budget.remaining = allowance.budget.total
        rw [dry, Nat.sub_zero]
      · cases doomed_of_course (dooms candid) (clean.step serves held ran).2 later with
        | racing racing => cases racing
        | «over» ended exhausted =>
          cases ended
          exact exhausted failure rfl

/-! ### Lookups that are played -/

/-- The next step of the `call` is refused a query. -/
def isRefused (call : Call) (resolver : Resolver) : Bool :=
  match call.spare.step resolver with
  | (.ok (some next), _) => next.allowance.budget.remaining == 0
  | _ => false

theorem refused_of_isRefused (refuses : call.isRefused resolver = true) :
    call.Refused resolver := by
  unfold isRefused at refuses
  split at refuses
  · rename_i next after ran
    exact ⟨next, after, ran, beq_iff_eq.mp refuses⟩
  · cases refuses

/-- The next step of the `call` starts a pass for addresses. -/
def startsPass (call : Call) : Bool :=
  match call.activity, call.matters with
  | .racing ⟨_, .addresses, _⟩, .start _ :: _ => true
  | _, _ => false

theorem candid_of_startsPass (starts : call.startsPass = true) : call.Candid types resolver := by
  obtain ⟨request, allowance, activity, matters⟩ := call
  unfold startsPass at starts
  split at starts
  · rename_i race search type rest racing first
    obtain rfl : activity = _ := racing
    obtain rfl : matters = _ := first
    refine ⟨fun own asks => ?_, fun own again => ?_⟩
    · cases own
      obtain ⟨failure, asks⟩ := asks
      cases asks
    · intro serial event pass same
      obtain ⟨rfl, -⟩ := List.cons.inj again
      cases same
  · cases starts

/-- The `Failure` of a `call` that has failed. -/
def failure? (call : Call) : Option Failure :=
  match call.activity with
  | .over (.error failure) => some failure
  | _ => none

theorem result?_of_failure? {failure : Failure} (fails : call.failure? = some failure) :
    ∃ error, call.result? = some (.error error) ∧ error.failure = failure := by
  obtain ⟨request, allowance, activity, matters⟩ := call
  unfold failure? at fails
  split at fails
  · rename_i ended
    obtain rfl : activity = _ := ended
    obtain rfl := Option.some.inj fails
    exact ⟨_, rfl, rfl⟩
  · cases fails

/-- The `budget` is used up when the second family of addresses is to be looked up. The query for
the first one cannot be sent. -/
theorem exhausted_of_refused_second : ∃ call next final resolver after last sent more error,
    lone.closed = false ∧
    Course Resolver.GoesOn Held (.new (.host "a.") 1) lone call resolver sent ∧
    call.Held resolver ∧ call.Refused resolver ∧
    call.Candid lone.settings.preference.types resolver ∧
    call.step resolver = (.ok (some next), after) ∧
    Course Resolver.GoesOn Held next after final last more ∧
    final.result? = some (.error error) ∧
    error.failure = .budgetExhausted ∧ error.attempts = error.budget := by
  have plays : (play lone (.new (.host "a.") 1) [none, none]).any (fun reached =>
      reached.1.isRefused reached.2 && reached.1.startsPass &&
        (play reached.2 reached.1 [none]).any fun stepped =>
          (play stepped.2 stepped.1 [some (1, .unsent ""), none, none]).any fun ended =>
            ended.1.failure?.isSome) = true := by
    decide +kernel
  obtain ⟨⟨call, resolver⟩, reached, checks⟩ := (Option.any_eq_true _ _).mp plays
  obtain ⟨checks, rest⟩ := Bool.and_eq_true_iff.mp checks
  obtain ⟨refuses, starts⟩ := Bool.and_eq_true_iff.mp checks
  obtain ⟨⟨next, after⟩, steps, rest⟩ := (Option.any_eq_true _ _).mp rest
  obtain ⟨⟨final, last⟩, ends, fails⟩ := (Option.any_eq_true _ _).mp rest
  obtain ⟨failure, fails⟩ := Option.isSome_iff_exists.mp fails
  obtain ⟨error, result, -⟩ := result?_of_failure? fails
  obtain ⟨sent, earlier⟩ := course_of_play (fun _ _ => id) .starts reached
  obtain ⟨more, later⟩ := course_of_play (fun _ _ => id) .starts ends
  obtain ⟨held, ran⟩ := step_of_play steps
  have refused := refused_of_isRefused refuses
  have candid : call.Candid lone.settings.preference.types resolver :=
    candid_of_startsPass starts
  have exhausted := exhausted_of_refused rfl earlier held refused ran later result
  exact ⟨call, next, final, resolver, after, last, sent, more, error, rfl, earlier, held, refused,
    candid, ran, later, result, exhausted.2 candid, exhausted.1⟩

/-- A response that refers to a server for the zone `a.`, without an address. -/
def bareReferral : Message where
  header := Header.empty.setResponse true
  questions := [.internet (.top 97) .a]
  answer := []
  authority := [⟨.top 97, .internet, 3600, .ns (.top 98)⟩]
  additional := []

/-- A lookup is referred to a server and is refused the query for the address of this server, which
`isRefused` tells. It fails with `noServers`. -/
theorem concealed_of_refused_bare :
    let begun : Resolver :=
      { lone with settings := { lone.settings with preference := .ipv4Only } }
    ∃ call next final resolver after last sent more error,
      begun.closed = false ∧
      Course Resolver.GoesOn Held (.new (.host "a.") 1) begun call resolver sent ∧
      call.Held resolver ∧ call.Refused resolver ∧
      call.step resolver = (.ok (some next), after) ∧
      Course Resolver.GoesOn Held next after final last more ∧
      final.result? = some (.error error) ∧ error.failure = .noServers := by
  intro begun
  have plays : (play begun (.new (.host "a.") 1) [none, none, some (1, .written), none]).any
      (fun asked =>
        (play { asked.2 with registry := .first [] [(1, .response bareReferral)] } asked.1
          [some (1, .roused)]).any fun reached =>
            reached.1.isRefused reached.2 && (play reached.2 reached.1 [none]).any fun stepped =>
              (play stepped.2 stepped.1 [none, none, none]).any fun ended =>
                ended.1.failure? == some .noServers) = true := by
    decide +kernel
  obtain ⟨⟨asking, waiting⟩, asked, rest⟩ := (Option.any_eq_true _ _).mp plays
  obtain ⟨⟨call, resolver⟩, reached, checks⟩ := (Option.any_eq_true _ _).mp rest
  obtain ⟨refuses, rest⟩ := Bool.and_eq_true_iff.mp checks
  obtain ⟨⟨next, after⟩, steps, rest⟩ := (Option.any_eq_true _ _).mp rest
  obtain ⟨⟨final, last⟩, ends, fails⟩ := (Option.any_eq_true _ _).mp rest
  obtain ⟨error, result, failure⟩ := result?_of_failure? (beq_iff_eq.mp fails)
  obtain ⟨_, course⟩ := course_of_play (fun _ _ => id) .starts asked
  have replied : Resolver.GoesOn waiting
      { waiting with registry := .first [] [(1, .response bareReferral)] } := ⟨rfl, rfl⟩
  obtain ⟨sent, earlier⟩ := course_of_play (fun _ _ => id) (course.meanwhile replied) reached
  obtain ⟨more, later⟩ := course_of_play (fun _ _ => id) .starts ends
  obtain ⟨held, ran⟩ := step_of_play steps
  exact ⟨call, next, final, resolver, after, last, sent, more, error, rfl, earlier, held,
    refused_of_isRefused refuses, ran, later, result, failure⟩

end Call

end

end NameResolution
