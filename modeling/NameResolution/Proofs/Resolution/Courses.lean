import NameResolution.Proofs.Resolution.CallInvariants

/-!
# Courses of calls

What a call comes to depends on the resolver that it meets at each of its steps. A course follows a
call together with its resolver.

* `Call.Course`: a call in the course of a run, with its resolver and the queries that it has sent.
  `Call.Course.quiet`: when it has sent none.
* `HostLookup.races_begin`: how a host lookup begins.
* `Call.begins_of_step`, `Call.closes_of_step`, `Call.passes_of_step`: the steps that begin a call
  for a host, that close a race, and that a call takes when it is over.
* `Pass.resume_of_answer`: a pass whose query is answered ends.
* `Call.step_of_start`, `Call.step_of_event`: a pass of a race goes on.
* `Call.play`: a call that a script leads through a course (`Call.course_of_play`).
* `Race.pending`: the types whose passes have not been started. `Race.pending_of_start`,
  `Race.pending_of_resume`: what steps do to them.
-/

namespace NameResolution

namespace Call

/-- A `call` in the course of a run, with the `resolver` at that time and the queries that the call
has sent. The call hears of events and takes steps, each of which `Fits`. In the meantime the
resolver changes. -/
inductive Course (Meanwhile : Resolver → Resolver → Prop) (Fits : Call → Resolver → Prop)
    (first : Call) (begun : Resolver) : Call → Resolver → List Datagram → Prop
  | starts : Course Meanwhile Fits first begun first begun []
  | hears {call : Call} {resolver : Resolver} {sent : List Datagram}
    (course : Course Meanwhile Fits first begun call resolver sent) (serial : Nat) (event : Event) :
    Course Meanwhile Fits first begun (call.notify serial event) resolver sent
  | meanwhile {call : Call} {resolver after : Resolver} {sent : List Datagram}
    (course : Course Meanwhile Fits first begun call resolver sent)
    (changed : Meanwhile resolver after) : Course Meanwhile Fits first begun call after sent
  | steps {call next : Call} {resolver after : Resolver} {sent more : List Datagram}
    (course : Course Meanwhile Fits first begun call resolver sent) (fits : Fits call resolver)
    (ran : call.step resolver = (.ok (some next), after))
    (sends : after.outbox = resolver.outbox ++ more) :
    Course Meanwhile Fits first begun next after (sent ++ more)

/-- Such a `Call` takes its steps whatever they are. -/
def Any : Call → Resolver → Prop := fun _ _ => True

/-- A `call` sends nothing as long as it is at a `stage` that it does not leave, at which no `step`
sends anything. The `resolver` keeps what these steps need. -/
theorem Course.quiet (Stage : Call → Prop) (Keeps : Resolver → Prop)
    {Meanwhile : Resolver → Resolver → Prop} {Fits : Call → Resolver → Prop}
    (notified : ∀ call serial event, Stage call → Stage (call.notify serial event))
    (changed : ∀ resolver after, Keeps resolver → Meanwhile resolver after → Keeps after)
    (stepped : ∀ call next resolver after, Stage call → Keeps resolver → Fits call resolver →
      call.step resolver = (.ok (some next), after) →
        Stage next ∧ Keeps after ∧ after.outbox = resolver.outbox)
    {first call : Call} {begun resolver : Resolver} {sent : List Datagram}
    (course : Course Meanwhile Fits first begun call resolver sent) (stage : Stage first)
    (keeps : Keeps begun) : Stage call ∧ Keeps resolver ∧ sent = [] := by
  induction course with
  | starts => exact ⟨stage, keeps, rfl⟩
  | hears course serial event ih =>
    obtain ⟨stage, keeps, none⟩ := ih
    exact ⟨notified _ serial event stage, keeps, none⟩
  | meanwhile course change ih =>
    obtain ⟨stage, keeps, none⟩ := ih
    exact ⟨stage, changed _ _ keeps change, none⟩
  | steps course fits ran sends ih =>
    obtain ⟨stage, keeps, rfl⟩ := ih
    obtain ⟨stage, keeps, same⟩ := stepped _ _ _ _ stage keeps fits ran
    rw [same] at sends
    exact ⟨stage, keeps, List.self_eq_append_right.mp sends⟩

end Call

/-! ## Beginnings -/

namespace HostLookup

/-- If the `progress` of a host lookup goes on, then with a race for the addresses of a name. -/
def Races (preference : Preference) (progress : HostProgress) : Prop :=
  ∀ lookup, progress = .racing lookup →
    ∃ name search, lookup = ⟨.forAddresses name preference, .addresses, search⟩

section

variable {session : Session}

theorem races_tryName (name : Name) (search : Option Search) :
    Op.Keeps (· = session) (tryName name search)
      (Races session.resolver.settings.preference) := by
  refine Op.Keeps.get.bind fun _ same => ?_
  subst same
  dsimp only
  split
  · exact .pure nofun
  · refine .pure fun lookup same => ⟨name, search, ?_⟩
    exact (HostProgress.racing.inj same).symm

theorem races_tryNext (relative : Name) (lastFailure : Option Failure) (suffixes : List Name) :
    Op.Keeps (· = session) (tryNext relative lastFailure suffixes)
      (Races session.resolver.settings.preference) := by
  induction suffixes generalizing lastFailure with
  | nil => exact .pure nofun
  | cons suffix suffixes ih =>
    unfold tryNext
    split
    · exact races_tryName _ _
    · exact ih _

/-- A host lookup begins without a change to the `resolver`: it is over at once, or it goes on with
a race for the addresses of a name. -/
theorem races_begin (host : String) :
    Op.Keeps (· = session) (begin host) (Races session.resolver.settings.preference) := by
  unfold begin
  split
  · exact .pure nofun
  split
  · exact .pure nofun
  refine Op.Keeps.bind (P := fun _ => True) (.of_state fun _ => id) fun settings _ => ?_
  split
  · exact races_tryName _ _
  · exact races_tryNext _ _ _

end

end HostLookup

namespace Call

variable {call next : Call} {resolver after : Resolver}

/-- The first `step` of a `call` for a `host` begins the lookup. -/
theorem begins_of_step {host : String} {matters : List Matter} (asks : call.request = .host host)
    (idle : call.activity = .requested) (first : call.matters = .begin :: matters)
    (ran : call.step resolver = (.ok (some next), after)) :
    ∃ progress session, HostLookup.begin host (call.session resolver) = (.ok progress, session) ∧
      next = (call.goingOn (ofHost progress) session).enterRace ∧ after = session.resolver := by
  obtain ⟨request, allowance, activity, own⟩ := call
  obtain rfl : request = .host host := asks
  obtain rfl : activity = .requested := idle
  obtain rfl : own = .begin :: matters := first
  obtain ⟨middle, _, attended, given⟩ := Op.bind_eq_ok.mp ran
  cases given
  obtain ⟨middle, _, went, given⟩ := Op.bind_eq_ok.mp attended
  cases given
  obtain ⟨activity, session, began, rfl, rfl⟩ := goOn_eq_ok.mp went
  obtain ⟨progress, opened, rfl⟩ := Op.map_eq_ok.mp began
  exact ⟨progress, session, opened, rfl, rfl⟩

/-- A `call` with nothing to attend to closes its `race`. All passes have ended, or the one that is
preferred has an answer. -/
theorem closes_of_step {lookup : HostLookup} (racing : call.activity = .racing lookup)
    (none : call.matters = []) (ran : call.step resolver = (.ok (some next), after)) :
    (lookup.race.AllEnded ∨ lookup.race.isWon = true) ∧ ∃ progress session,
      lookup.conclude (call.session resolver) = (.ok progress, session) ∧
        next = (call.goingOn (ofHost progress) session).enterRace ∧ after = session.resolver := by
  obtain ⟨request, allowance, activity, own⟩ := call
  obtain rfl : activity = .racing lookup := racing
  obtain rfl : own = [] := none
  by_cases closes : lookup.race.AllEnded ∨ lookup.race.isWon
  · refine ⟨closes, ?_⟩
    dsimp only [step, closeRace] at ran
    rw [if_pos closes] at ran
    obtain ⟨middle, _, went, given⟩ := Op.bind_eq_ok.mp ran
    cases given
    obtain ⟨activity, session, closed, rfl, rfl⟩ := goOn_eq_ok.mp went
    obtain ⟨progress, concluded, rfl⟩ := Op.map_eq_ok.mp closed
    exact ⟨progress, session, concluded, rfl, rfl⟩
  · dsimp only [step, closeRace] at ran
    rw [if_neg closes] at ran
    cases ran

/-- A `call` that is over leaves what comes up. -/
theorem passes_of_step {result : Except Failure Found} (ended : call.activity = .over result)
    (ran : call.step resolver = (.ok (some next), after)) :
    ∃ matter matters, call.matters = matter :: matters ∧
      next = { call with matters := matters } ∧ after = resolver := by
  cases stride_of_step ran with
  | begins idle => cases ended.symm.trans idle
  | asks idle => cases ended.symm.trans idle
  | starts racing => cases ended.symm.trans racing
  | resumes racing => cases ended.symm.trans racing
  | answers asking => cases ended.symm.trans asking
  | closes racing => cases ended.symm.trans racing
  | passes first => exact ⟨_, _, first, rfl, rfl⟩

end Call

/-! ## Steps that passes take -/

/-- The first pass that `fits` goes on. -/
theorem Race.advanceRun_of_first {fits : RecordType → Run → Bool}
    {advance : RecordType → Run → Op Session Run} {front back : Runs} {type : RecordType}
    {run later : Run} {before after : Session} (none : ∀ run ∈ front, fits run.1 run.2 = false)
    (fit : fits type run = true) (went : advance type run before = (.ok later, after)) :
    advanceRun fits advance (front ++ (type, run) :: back) before =
      (.ok (front ++ (type, later) :: back), after) := by
  induction front with
  | nil =>
    rw [List.nil_append, advanceRun, if_pos fit]
    exact Op.bind_eq_ok.mpr ⟨_, _, went, rfl⟩
  | cons first front ih =>
    obtain ⟨own, rest⟩ := List.forall_mem_cons.mp none
    rw [List.cons_append, advanceRun, if_neg (by simp [own])]
    exact Op.bind_eq_ok.mpr ⟨_, _, ih rest, rfl⟩

/-- What is learned of a `response` goes to the `cache`. -/
theorem Session.learn_of_addMessage {response : Message} {resolver : Resolver}
    {allowance : Allowance} {found : Lookup} {cache : Cache}
    (stored : Cache.addMessage response resolver.now resolver.cache = (.ok found, cache)) :
    learn response ⟨resolver, allowance⟩ =
      (.ok (), ⟨{ resolver with cache := cache }, allowance⟩) := by
  refine Op.bind_eq_ok.mpr ⟨found, _, ?_, rfl⟩
  simp [onResolver, Resolver.onCache, Op.runOn, stored]

/-- A `pass` whose `query` is answered ends, after it has learned the `response`. -/
theorem Pass.resume_of_answer {pass : Pass} {event : Event} {before : Session} {query : Query}
    {registry : Registry} {response : Message} {answer : Answer} (alone : pass.outer = [])
    (happened : pass.asked.query.happen event before.resolver.registry =
      ((some (.ok response), query), registry))
    (used : Inquiry.usable (.ok response) = .ok response)
    (meant : Outcome.classify response pass.asked.inquiry.name pass.asked.inquiry.type =
      .answer answer) {after : Session}
    (learned : Session.learn response
      { before with resolver := { before.resolver with registry := registry } } = (.ok (), after)) :
    pass.resume event before = (.ok (.finished (.ok answer)), after) := by
  -- The pass takes up the event, learns the response, and finds its answer in it.
  have evaluated : pass.asked.inquiry.evaluate (.ok response)
      { before with resolver := { before.resolver with registry := registry } } =
        (.ok (.response response), after) := by
    unfold Inquiry.evaluate
    rw [used]
    exact Op.bind_eq_ok.mpr ⟨_, _, learned, rfl⟩
  have concluded : Pass.conclude pass.asked (.ok response)
      { before with resolver := { before.resolver with registry := registry } } =
        (.ok (.finished (.ok answer), []), after) := by
    refine Op.bind_eq_ok.mpr ⟨_, _, evaluated, ?_⟩
    simp [Pass.react, meant]
  have happens : Session.withResolver (Resolver.onRegistry (pass.asked.query.happen event)) before =
      (.ok (some (.ok response), query),
        { before with resolver := { before.resolver with registry := registry } }) := by
    rw [Session.withResolver_apply]
    simp only [Resolver.onRegistry, happened]
  refine Op.bind_eq_ok.mpr ⟨_, _, happens, Op.bind_eq_ok.mpr ⟨_, _, concluded, ?_⟩⟩
  rw [alone]
  rfl

namespace Call

variable {lookup : HostLookup} {type : RecordType} {matters : List Matter} {back : Runs}
  {progress : Progress} {resolver : Resolver} {session : Session}

/-- A `Pass` that is to be started is started. -/
theorem step_of_start (call : Call) (front : Runs) (racing : call.activity = .racing lookup)
    (first : call.matters = .start type :: matters)
    (runs : lookup.race.runs = front ++ (type, .unstarted) :: back)
    (others : ∀ run ∈ front, run.1 ≠ type)
    (ran : Pass.start lookup.race.name type (call.session resolver) = (.ok progress, session)) :
    call.step resolver = (.ok (some (call.goingOn
      (.racing (lookup.withRuns (front ++ (type, .ofProgress progress) :: back))) session)),
      session.resolver) := by
  obtain ⟨request, allowance, activity, own⟩ := call
  obtain rfl : activity = .racing lookup := racing
  obtain rfl : own = .start type :: matters := first
  have started : lookup.race.startRun type ⟨resolver, allowance⟩ = (.ok
      { lookup.race with runs := front ++ (type, .ofProgress progress) :: back }, session) := by
    refine Op.bind_eq_ok.mpr ⟨_, _, ?_, rfl⟩
    rw [runs]
    exact Race.advanceRun_of_first (by simpa using others) (by simp)
      (Op.bind_eq_ok.mpr ⟨_, _, ran, rfl⟩)
  have went : goOn ⟨request, allowance, .racing lookup, matters⟩
      (do return .racing { lookup with race := ← lookup.race.startRun type }) resolver =
        (.ok _, session.resolver) :=
    goOn_eq_ok.mpr ⟨_, session, Op.bind_eq_ok.mpr ⟨_, _, started, rfl⟩, rfl, rfl⟩
  exact Op.bind_eq_ok.mpr ⟨_, _, went, rfl⟩

/-- The `pass` that waits for the `query` of an `event` goes on. -/
theorem step_of_event (call : Call) (front : Runs) {serial : Nat} {event : Event} {pass : Pass}
    (racing : call.activity = .racing lookup)
    (first : call.matters = .event serial event :: matters)
    (runs : lookup.race.runs = front ++ (type, .waiting pass) :: back)
    (own : pass.asked.query.serial = serial)
    (others : ∀ run ∈ front, run.2.serial? ≠ some serial)
    (ran : pass.resume event (call.session resolver) = (.ok progress, session)) :
    call.step resolver = (.ok (some (call.goingOn
      (.racing (lookup.withRuns (front ++ (type, .ofProgress progress) :: back))) session)),
      session.resolver) := by
  obtain ⟨request, allowance, activity, waiting⟩ := call
  obtain rfl : activity = .racing lookup := racing
  obtain rfl : waiting = .event serial event :: matters := first
  have resumed : lookup.race.resumeRun serial event ⟨resolver, allowance⟩ = (.ok
      { lookup.race with runs := front ++ (type, .ofProgress progress) :: back }, session) := by
    refine Op.bind_eq_ok.mpr ⟨_, _, ?_, rfl⟩
    rw [runs]
    exact Race.advanceRun_of_first (by simpa using others)
      (by simp [NameResolution.Run.serial?, own]) (Op.bind_eq_ok.mpr ⟨_, _, ran, rfl⟩)
  have went : goOn ⟨request, allowance, .racing lookup, matters⟩
      (do return .racing { lookup with race := ← lookup.race.resumeRun serial event }) resolver =
        (.ok _, session.resolver) :=
    goOn_eq_ok.mpr ⟨_, session, Op.bind_eq_ok.mpr ⟨_, _, resumed, rfl⟩, rfl, rfl⟩
  exact Op.bind_eq_ok.mpr ⟨_, _, went, rfl⟩

end Call

/-! ## Calls that are played -/

/-- The `registry` still `knows` of the query. -/
def Registry.knows (registry : Registry) (serial : Nat) : Bool :=
  match registry.fate serial with
  | .gone => false
  | _ => true

namespace Call

variable {call next : Call} {resolver after : Resolver}

/-- Nobody else has cancelled a query of the `call`. -/
def Held (call : Call) (resolver : Resolver) : Prop :=
  ∀ serial ∈ call.serials, resolver.registry.fate serial ≠ .gone

/-- How far a call gets with a script, in which events of its queries come up and it takes steps,
here written as `none`, with a resolver that nobody else uses. -/
def play (resolver : Resolver) (call : Call) :
    List (Option (Nat × Event)) → Option (Call × Resolver)
  | [] => some (call, resolver)
  | some (serial, event) :: script => play resolver (call.notify serial event) script
  | none :: script =>
    if call.serials.all resolver.registry.knows then
      match call.step resolver with
      | (.ok (some next), after) => play after next script
      | _ => none
    else none

theorem held_of_knows (known : call.serials.all resolver.registry.knows = true) :
    call.Held resolver := by
  intro serial waits gone
  have knows := List.all_eq_true.mp known serial waits
  unfold Registry.knows at knows
  rw [gone] at knows
  cases knows

/-- What a `step` sends is put to the end of the `outbox`. -/
theorem exists_sends (ran : call.step resolver = (.ok (some next), after)) :
    ∃ more, after.outbox = resolver.outbox ++ more := by
  obtain ⟨more, outbox, -⟩ := spends_perform call .step resolver
  rw [perform, Op.map_apply, ran] at outbox
  exact ⟨more, outbox⟩

theorem course_of_play {Meanwhile : Resolver → Resolver → Prop} {Fits : Call → Resolver → Prop}
    {first final : Call} {begun last : Resolver} {sent : List Datagram}
    {script : List (Option (Nat × Event))} (fits : ∀ call resolver, call.Held resolver →
      Fits call resolver) (course : Course Meanwhile Fits first begun call resolver sent)
    (played : play resolver call script = some (final, last)) :
    ∃ more, Course Meanwhile Fits first begun final last more := by
  induction script generalizing call resolver sent with
  | nil =>
    obtain ⟨rfl, rfl⟩ := Prod.mk.inj (Option.some.inj played)
    exact ⟨sent, course⟩
  | cons deed script ih =>
    cases deed with
    | some notice => exact ih (course.hears notice.1 notice.2) played
    | none =>
      rw [play] at played
      split at played
      · rename_i known
        split at played
        · rename_i next after ran
          obtain ⟨more, sends⟩ := exists_sends ran
          exact ih (course.steps (fits _ _ (held_of_knows known)) ran sends) played
        · cases played
      · cases played

theorem step_of_play (played : play resolver call [none] = some (next, after)) :
    call.Held resolver ∧ call.step resolver = (.ok (some next), after) := by
  rw [play] at played
  split at played
  · rename_i known
    split at played
    · rename_i ran
      obtain ⟨rfl, rfl⟩ := Prod.mk.inj (Option.some.inj played)
      exact ⟨held_of_knows known, ran⟩
    · cases played
  · cases played

end Call

/-! ## Passes to be started -/

/-- The pass is in the state `unstarted`. -/
def Run.isUnstarted : Run → Bool
  | unstarted => true
  | _ => false

namespace Race

/-- The types of those `runs` that are `isUnstarted`. -/
def pending (runs : Runs) : List RecordType := (runs.filter (·.2.isUnstarted)).map Prod.fst

theorem pending_new (types : List RecordType) :
    pending (types.map fun type => (type, .unstarted)) = types := by
  induction types with
  | nil => rfl
  | cons type types ih => exact congrArg (type :: ·) ih

theorem pending_append (front back : Runs) : pending (front ++ back) = pending front ++ pending back
    := by simp [pending]

/-- The pass that is started is the first one that is `pending`. -/
theorem pending_of_start {front back : Runs} {type : RecordType} {left : List RecordType}
    {run : Run} (nodup : ((front ++ (type, .unstarted) :: back).map Prod.fst).Nodup)
    (first : pending (front ++ (type, .unstarted) :: back) = type :: left)
    (started : run.isUnstarted = false) :
    pending (front ++ (type, run) :: back) = left ∧ pending front = [] := by
  have here : pending ((type, run) :: back) = pending back := by simp [pending, started]
  have others : type ∉ pending front := by
    rw [List.map_append, List.map_cons, List.nodup_middle, List.nodup_cons] at nodup
    intro member
    exact nodup.1 (List.mem_append_left _ ((List.filter_sublist.map _).subset member))
  rw [pending_append] at first ⊢
  rw [here]
  cases before : pending front with
  | nil =>
    rw [before, List.nil_append] at first
    exact ⟨(List.cons.inj first).2, rfl⟩
  | cons other rest =>
    rw [before, List.cons_append] at first
    rw [before, (List.cons.inj first).1] at others
    exact absurd List.mem_cons_self others

/-- A pass that goes on leaves those `pending` that were. -/
theorem pending_of_resume {front back : Runs} {type : RecordType} {run later : Run}
    (started : run.isUnstarted = false) (still : later.isUnstarted = false) :
    pending (front ++ (type, later) :: back) = pending (front ++ (type, run) :: back) := by
  simp [pending, started, still]

end Race

end NameResolution
