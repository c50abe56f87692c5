import NameResolution.Proofs.Resolution.CallWork

/-!
# What the steps of a call preserve

* `Call.Stride.fallsBack`, `Call.Stride.chasesAlias`: what a call does only once. It uses up a
  chance that `Call.Stride.chances` never gives back.
* `Call.Ready`: every pass that has not been started will be. `Call.Ready.exists_serial`: so a call
  that rests and is not over waits for a query.
* `Call.OnCourse`: all passes of a call are in the course of some run.
-/

namespace NameResolution

namespace Call

variable {call next : Call} {resolver after : Resolver}

/-! ## What a call does only once -/

/-- The `call` asks whether a name is an alias. -/
def AsksAlias (call : Call) : Prop := ∃ lookup, call.activity = .racing lookup ∧ lookup.AsksAlias

/-- The next step of the `call` begins to ask whether a name is an alias: the call did not ask for
that before, or the step closes the race that did. -/
def FallsBack (call : Call) (resolver : Resolver) : Prop :=
  ∃ next after, call.step resolver = (.ok (some next), after) ∧ next.AsksAlias ∧
    (call.AsksAlias → call.matters = [])

/-- The next step of the `call` asks a server for the target of an alias: a query is settled by a
response that makes the name an alias, and its pass goes on with another query. -/
def ChasesAlias (call : Call) (resolver : Resolver) : Prop :=
  ∃ serial event matters pass result response target next session,
    call.matters = .event serial event :: matters ∧ call.addressee? serial = some pass ∧
    (pass.asked.query.happen event resolver.registry).1.1 = some result ∧
    Inquiry.usable result = .ok response ∧
    Outcome.classify response pass.asked.inquiry.name pass.asked.inquiry.type = .alias target ∧
    Pass.conclude pass.asked result (call.session { resolver with
      registry := (pass.asked.query.happen event resolver.registry).2 }) =
        (.ok (.asked next, []), session)

@[simp] theorem allowance_goingOn (call : Call) (activity : Activity) (session : Session) :
    (call.goingOn activity session).allowance = session.allowance := rfl

@[simp] theorem activity_enterRace (call : Call) : call.enterRace.activity = call.activity := by
  unfold enterRace
  split <;> simp_all

theorem ofHost_eq_racing {progress : HostProgress} {lookup : HostLookup} :
    ofHost progress = .racing lookup ↔ progress = .racing lookup := by
  cases progress <;> simp [ofHost]

/-- What a `call` may do only once does not come back. -/
theorem Stride.chances (stride : Stride call resolver next after) :
    (call.allowance.chased = true → next.allowance.chased = true) ∧
      (call.allowance.aliasAsked = true → next.allowance.aliasAsked = true) := by
  have kept {session : Session} (same : (call.session resolver).SameChances session) :
      (call.allowance.chased = true → session.allowance.chased = true) ∧
        (call.allowance.aliasAsked = true → session.allowance.aliasAsked = true) :=
    ⟨same.chased.trans, same.aliasAsked.trans⟩
  -- No step gives a chance back; the one that asks for a bare alias uses it.
  cases stride with
  | begins idle first ran =>
    rw [allowance_enterRace]
    exact kept (HostLookup.yields_begin _ _ _ _ ran).1
  | asks idle first ran => exact kept (yields_beginQuestion _ _ _ _ _ ran).1
  | starts racing first runs ran => exact kept (Pass.smaller_start _ _ _ _ _ ran).1
  | resumes racing first runs addressed ran =>
    exact (Pass.resume_chances ran).imp_right Eq.trans
  | answers asking first ran =>
    obtain ⟨query, rfl, -, same, -⟩ | ⟨same, -⟩ := resumeQuestion_cases ran
    · rw [allowance_goingOn, same]
      exact ⟨id, id⟩
    · exact kept same
  | closes racing none ran =>
    rw [allowance_enterRace]
    have concluded := HostLookup.conclude_cases ran
    refine ⟨concluded.chased.trans, ?_⟩
    cases concluded with
    | finished same => exact same.aliasAsked.trans
    | tries same begins smaller plain => exact same.aliasAsked.trans
    | asks begins smaller asks chased unused used => exact fun _ => used
  | passes first begun started strange => exact ⟨id, id⟩

/-- A `call` that begins to ask for a bare alias has not done so before. -/
theorem Stride.fallsBack (stride : Stride call resolver next after) (asks : next.AsksAlias)
    (anew : call.AsksAlias → call.matters = []) :
    call.allowance.aliasAsked = false ∧ next.allowance.aliasAsked = true := by
  -- A single question is no race for a bare alias.
  have single {activity : Activity} {session : Session} (single : activity.IsSingle) :
      ¬(call.goingOn activity session).AsksAlias := by
    rintro ⟨lookup, racing, -⟩
    obtain rfl : activity = .racing lookup := racing
    exact single
  cases stride with
  | begins idle first ran =>
    obtain ⟨lookup, racing, failure, asks⟩ := asks
    rw [activity_enterRace] at racing
    have begins := (HostLookup.yields_begin _ _ _ _ ran).2 lookup (ofHost_eq_racing.mp racing)
    cases begins.2.symm.trans asks
  | asks idle first ran => exact absurd asks (single (yields_beginQuestion _ _ _ _ _ ran).2.1)
  | starts racing first runs ran =>
    obtain ⟨lookup, same, asks⟩ := asks
    obtain rfl := Activity.racing.inj same
    cases first.symm.trans (anew ⟨_, racing, asks⟩)
  | resumes racing first runs addressed ran =>
    obtain ⟨lookup, same, asks⟩ := asks
    obtain rfl := Activity.racing.inj same
    cases first.symm.trans (anew ⟨_, racing, asks⟩)
  | answers asking first ran =>
    obtain ⟨query, rfl, -⟩ | ⟨-, alone, -⟩ := resumeQuestion_cases ran
    · exact absurd asks (single trivial)
    · exact absurd asks (single alone)
  | closes racing none ran =>
    obtain ⟨lookup, racing, asks⟩ := asks
    rw [activity_enterRace] at racing
    obtain rfl := ofHost_eq_racing.mp racing
    rw [allowance_enterRace]
    cases HostLookup.conclude_cases ran with
    | tries same begins smaller plain => exact absurd asks plain
    | asks begins smaller asks chased unused used => exact ⟨unused, used⟩
  | passes first begun started strange => cases first.symm.trans (anew asks)

/-- A `call` that chases an alias has not done so before. -/
theorem Stride.chasesAlias (stride : Stride call resolver next after)
    (chases : call.ChasesAlias resolver) :
    call.allowance.chased = false ∧ next.allowance.chased = true := by
  obtain ⟨serial, event, matters, pass, result, response, target, asked, session, first, addressed,
    happens, answered, aliased, concluded⟩ := chases
  cases stride with
  | begins idle other ran => cases first.symm.trans other
  | asks idle other ran => cases first.symm.trans other
  | starts racing other runs ran => cases first.symm.trans other
  | closes racing none ran => cases first.symm.trans none
  | answers asking other ran =>
    rw [addressee?, asking] at addressed
    cases addressed
  | passes other begun started strange =>
    cases first.symm.trans other
    cases (strange _ _ rfl).symm.trans addressed
  -- Only a pass whose query is settled can chase an alias, and only by the step that tries to.
  | resumes racing other runs addressed' ran =>
    cases first.symm.trans other
    cases addressed.symm.trans addressed'
    obtain ⟨waits, -⟩ | ⟨result', next, session', happens', concluded', unwound⟩ :=
      Pass.resume_cases ran
    · cases happens.symm.trans waits
    · cases happens.symm.trans happens'
      cases concluded.symm.trans concluded'
      have same := (Pass.yields_unwind_trivial _ _ _ _ _ unwound).1
      cases Pass.conclude_cases concluded with
      | retried follows plain kept => exact absurd aliased (plain _ _ answered)
      | chased answered' aliased' inquiry unused used aliasAsked =>
        exact ⟨unused, same.chased.trans used⟩
      | referred answered' refers down pursuit kept =>
        cases answered.symm.trans answered'
        cases aliased.symm.trans refers

/-! ## Calls that rest -/

/-- The `call` will begin, and all its passes will be started. -/
structure Ready (call : Call) : Prop where
  begins : call.activity = .requested → .begin ∈ call.matters
  nodup : (call.activity.runs.map Prod.fst).Nodup
  starts : ∀ type, (type, .unstarted) ∈ call.activity.runs → .start type ∈ call.matters

theorem ready_new (request : Request) (budget : Nat) : Ready (.new request budget) :=
  ⟨fun _ => List.mem_cons_self, List.nodup_nil, nofun⟩

theorem ready_of_single {call : Call} (single : call.activity.IsSingle) : call.Ready := by
  refine ⟨fun requested => ?_, ?_, fun type mem => ?_⟩
  · rw [requested] at single
    exact single.elim
  · rw [single.runs_eq]
    exact List.nodup_nil
  · rw [single.runs_eq] at mem
    cases mem

/-- After `enterRace` the passes of the new race are going to be started. -/
theorem ready_enterRace {call : Call} {progress : HostProgress}
    (activity : call.activity = ofHost progress)
    (begins : ∀ lookup, progress = .racing lookup → lookup.Begins) : call.enterRace.Ready := by
  cases progress with
  | finished result =>
    refine ready_of_single ?_
    rw [activity_enterRace, activity]
    trivial
  | racing lookup =>
    obtain ⟨types, nodup, runs⟩ := begins lookup rfl
    -- Every pass of the new race is among the matters, to be started.
    have entered : call.enterRace = { call with matters := lookup.race.types.map .start } := by
      rw [enterRace, activity]
      rfl
    have own : call.activity.runs = types.map fun type => (type, .unstarted) := by
      rw [activity]
      exact runs
    have same :
        (types.map fun type => (type, NameResolution.Run.unstarted)).map Prod.fst = types := by
      simp [Function.comp_def]
    rw [entered]
    refine ⟨fun requested => ?_, ?_, fun type mem => ?_⟩
    · cases activity.symm.trans requested
    · show (call.activity.runs.map Prod.fst).Nodup
      rwa [own, same]
    · have mem : type ∈ call.activity.runs.map Prod.fst := List.mem_map_of_mem mem
      rw [own, same] at mem
      show .start type ∈ (lookup.race.runs.map Prod.fst).map Matter.start
      rw [runs, same]
      exact List.mem_map_of_mem mem

/-- A `run` that goes on leaves the other passes of a `Ready` call to be started. -/
theorem Ready.run {lookup : HostLookup} {matter : Matter} {matters : List Matter}
    {front back : Runs} {type : RecordType} {run later : NameResolution.Run} {session : Session}
    (ready : call.Ready)
    (racing : call.activity = .racing lookup) (first : call.matters = matter :: matters)
    (runs : lookup.race.runs = front ++ (type, run) :: back) (started : later ≠ .unstarted)
    (own : ∀ other, matter = .start other → other = type) :
    (call.goingOn (.racing (lookup.withRuns (front ++ (type, later) :: back))) session).Ready := by
  obtain ⟨-, nodup, starts⟩ := ready
  rw [racing, Activity.runs, runs] at nodup starts
  refine ⟨fun requested => (by cases requested), ?_, fun other mem => ?_⟩
  · show ((front ++ (type, later) :: back).map Prod.fst).Nodup
    simpa using nodup
  · have left : (other, .unstarted) ∈ front ++ back := by
      rcases List.mem_append.mp mem with mem | mem
      · exact List.mem_append_left _ mem
      · refine List.mem_append_right _ ((List.mem_cons.mp mem).resolve_left fun same => ?_)
        exact started (Prod.mk.inj same).2.symm
    have waits := starts other (List.perm_middle.symm.subset (List.mem_cons_of_mem _ left))
    show .start other ∈ call.matters.tail
    rw [first] at waits ⊢
    refine (List.mem_cons.mp waits).resolve_left fun same => ?_
    -- the pass that goes on is the only one for its type
    rw [List.map_append, List.map_cons, List.nodup_middle, List.nodup_cons] at nodup
    rw [← List.map_append] at nodup
    obtain rfl := own other same.symm
    exact nodup.1 (List.mem_map.mpr ⟨_, left, rfl⟩)

theorem Stride.ready (stride : Stride call resolver next after) (ready : call.Ready) :
    next.Ready := by
  cases stride with
  | begins idle first ran =>
    exact ready_enterRace rfl fun lookup same =>
      ((HostLookup.yields_begin _ _ _ _ ran).2 lookup same).1
  | asks idle first ran => exact ready_of_single (yields_beginQuestion _ _ _ _ _ ran).2.1
  | starts racing first runs ran =>
    refine ready.run racing first runs (Run.ofProgress_ne_unstarted _) fun other same => ?_
    exact (Matter.start.inj same).symm
  | resumes racing first runs addressed ran =>
    exact ready.run racing first runs (Run.ofProgress_ne_unstarted _) nofun
  | answers asking first ran =>
    refine ready_of_single ?_
    obtain ⟨query, rfl, -⟩ | ⟨-, alone, -⟩ := resumeQuestion_cases ran
    · trivial
    · exact alone
  | closes racing none ran =>
    refine ready_enterRace rfl ?_
    rintro lookup rfl
    exact (HostLookup.conclude_cases ran).begins.1
  | @passes matter matters first begun started strange =>
    -- The matter that is passed over starts no pass that is still to be started.
    obtain ⟨begins, nodup, starts⟩ := ready
    refine ⟨fun requested => ?_, nodup, fun type mem => ?_⟩
    · have mem := begins requested
      rw [first] at mem
      exact (List.mem_cons.mp mem).resolve_left (begun requested).symm
    · have mem' := starts type mem
      rw [first] at mem'
      refine (List.mem_cons.mp mem').resolve_left fun same => ?_
      exact started type same.symm nodup mem

/-- A `call` that is not over and rests waits for a query. -/
theorem Ready.exists_serial (ready : call.Ready)
    (rests : call.step resolver = (.ok none, after)) (busy : call.isOver = false) :
    ∃ serial, serial ∈ call.serials := by
  obtain ⟨begins, -, starts⟩ := ready
  obtain ⟨done, goes⟩ := of_rests rests
  rw [done] at begins starts
  unfold serials
  cases activity : call.activity with
  | requested => cases begins activity
  | asking asked => exact ⟨_, List.mem_singleton_self _⟩
  | «over» result => simp [isOver, activity] at busy
  | racing lookup =>
    rw [activity] at starts
    have open' := goes lookup activity
    simp only [Race.AllEnded, not_forall] at open'
    obtain ⟨⟨type, run⟩, mem, going⟩ := open'
    cases run with
    | unstarted => cases starts type mem
    | ended result => exact absurd rfl going
    | waiting pass => exact ⟨_, List.mem_filterMap.mpr ⟨_, mem, rfl⟩⟩

/-! ## The courses of passes -/

/-- All passes of the `call` are in the course of some run. -/
def OnCourse (call : Call) : Prop :=
  ∀ type pass, (type, .waiting pass) ∈ call.activity.runs →
    Pass.OnCourse (.asked pass.asked, pass.outer)

theorem onCourse_new (request : Request) (budget : Nat) : OnCourse (.new request budget) :=
  fun _ _ mem => absurd mem List.not_mem_nil

theorem onCourse_of_begins {call : Call} {progress : HostProgress}
    (activity : call.activity = ofHost progress)
    (begins : ∀ lookup, progress = .racing lookup → lookup.Begins) : call.enterRace.OnCourse := by
  intro type pass mem
  rw [activity_enterRace, activity] at mem
  cases progress with
  | finished result => cases mem
  | racing lookup =>
    obtain ⟨types, -, runs⟩ := begins lookup rfl
    rw [ofHost, Activity.runs, runs] at mem
    obtain ⟨_, -, same⟩ := List.mem_map.mp mem
    cases same

theorem onCourse_of_single {call : Call} (single : call.activity.IsSingle) : call.OnCourse := by
  intro type pass mem
  rw [single.runs_eq] at mem
  cases mem

/-- A `Pass` that goes on on course leaves the other ones on course. -/
theorem OnCourse.run {lookup : HostLookup} {front back : Runs} {type : RecordType}
    {run : NameResolution.Run} {progress : Progress} {session : Session} (onCourse : call.OnCourse)
    (racing : call.activity = .racing lookup)
    (runs : lookup.race.runs = front ++ (type, run) :: back)
    (goes : Pass.OnCourse progress.parts) :
    (call.goingOn (.racing (lookup.withRuns (front ++ (type, .ofProgress progress) :: back)))
      session).OnCourse := by
  intro other pass mem
  have kept (left : (other, .waiting pass) ∈ front ++ back) :
      Pass.OnCourse (.asked pass.asked, pass.outer) := by
    refine onCourse other pass ?_
    rw [racing, Activity.runs, runs]
    exact List.perm_middle.symm.subset (List.mem_cons_of_mem _ left)
  rcases List.mem_append.mp mem with mem | mem
  · exact kept (List.mem_append_left _ mem)
  rcases List.mem_cons.mp mem with same | mem
  · cases progress with
    | finished result => cases same
    | waiting next =>
      cases same
      exact goes
  · exact kept (List.mem_append_right _ mem)

theorem Stride.onCourse (stride : Stride call resolver next after) (onCourse : call.OnCourse) :
    next.OnCourse := by
  cases stride with
  | begins idle first ran =>
    exact onCourse_of_begins rfl fun lookup same =>
      ((HostLookup.yields_begin _ _ _ _ ran).2 lookup same).1
  | asks idle first ran => exact onCourse_of_single (yields_beginQuestion _ _ _ _ _ ran).2.1
  | starts racing first runs ran =>
    exact onCourse.run racing runs (Pass.onCourse_start _ _ _ _ _ ran).2
  | @resumes lookup type serial event matters front back pass progress session racing first runs
      addressed ran =>
    refine onCourse.run racing runs (.resume (onCourse type pass ?_) ran)
    rw [racing, Activity.runs, runs]
    simp
  | answers asking first ran =>
    refine onCourse_of_single ?_
    obtain ⟨query, rfl, -⟩ | ⟨-, alone, -⟩ := resumeQuestion_cases ran
    · trivial
    · exact alone
  | closes racing none ran =>
    refine onCourse_of_begins rfl ?_
    rintro lookup rfl
    exact (HostLookup.conclude_cases ran).begins.1
  | passes first begun started strange => exact onCourse

end Call

end NameResolution
