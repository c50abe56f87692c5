import NameResolution.Proofs.Resolution.Strides

/-!
# What is left for a call to do

The duties of a call are those of its passes, of its host lookup, and the chance to chase an alias.

* `Call.work`: what is left for a call to do.
* `Call.resumeQuestion_cases`: all that can come of an event for a single question.
* `Call.Stride.less_or_same`: a stride leaves less to do, or it sends no query and leaves the
  queries that are waited for.
-/

namespace NameResolution

namespace Run

/-- The duties of a `Run`. -/
def work : Run → Work
  | unstarted => {Pass.unstarted}
  | waiting pass => Pass.workOf (.asked pass.asked, pass.outer)
  | ended _ => 0

theorem work_ofProgress (progress : Progress) :
    (ofProgress progress).work = Pass.workOf progress.parts := by
  cases progress with
  | finished result => rfl
  | waiting pass => rfl

end Run

/-- What may come of a `Request`. -/
def Request.duty : Duty := .of (Pass.maxDepth + 3) 0 0 0

namespace Activity

/-- The duties of an `Activity`. -/
def work : Activity → Work
  | .requested => {Request.duty}
  | .racing lookup => {lookup.duty} + (lookup.race.runs.map (·.2.work)).sum
  | .asking asked => {asked.inquiry.duty}
  | .over _ => 0

theorem work_racing {lookup : HostLookup} {front back : Runs}
    {type : RecordType} {run : Run} (runs : lookup.race.runs = front ++ (type, run) :: back) :
    work (.racing lookup) =
      {lookup.duty} + (front.map (·.2.work)).sum + (back.map (·.2.work)).sum + run.work := by
  rw [work, runs, List.map_append, List.map_cons, List.sum_append, List.sum_cons]
  ac_rfl

/-- The duties of a new race are smaller than one that is greater than that of its `lookup`. -/
theorem smaller_of_begins {lookup : HostLookup} {duty : Duty} (begins : lookup.Begins)
    (smaller : lookup.duty < duty) : ∀ other ∈ work (.racing lookup), other < duty := by
  obtain ⟨types, -, runs⟩ := begins
  have unstarted : ∀ other ∈ (lookup.race.runs.map (·.2.work)).sum, other = Pass.unstarted := by
    rw [runs]
    clear runs
    induction types with
    | nil => simp
    | cons type types ih =>
      rw [List.map_cons, List.map_cons, List.sum_cons]
      intro other mem
      rcases Multiset.mem_add.mp mem with mem | mem
      · exact Multiset.mem_singleton.mp mem
      · exact ih other mem
  intro other mem
  rcases Multiset.mem_add.mp mem with mem | mem
  · rwa [Multiset.mem_singleton.mp mem]
  · rw [unstarted other mem]
    exact lookup.unstarted_lt_duty.trans smaller

end Activity

namespace Call

/-- The duties of a `call`. -/
def work (call : Call) : Work := call.allowance.work + call.activity.work

@[simp] theorem work_enterRace (call : Call) : call.enterRace.work = call.work := by
  unfold enterRace
  split <;> rfl

@[simp] theorem work_goingOn (call : Call) (activity : Activity) (session : Session) :
    (call.goingOn activity session).work = session.allowance.work + activity.work := rfl

/-- A `call` that discharges its `duty`, without using up a chance, has less to do. -/
theorem less_of_smaller {call : Call} {activity : Activity} {session : Session} {duty : Duty}
    (chased : session.allowance.chased = call.allowance.chased) (mem : duty ∈ call.activity.work)
    (smaller : ∀ other ∈ activity.work, other < duty) :
    (call.goingOn activity session).work.Less call.work := by
  rw [work_goingOn, Allowance.work, chased]
  exact .of_discharge _ mem smaller

theorem smaller_of_hostProgress {progress : HostProgress} {duty : Duty}
    (smaller : ∀ lookup, progress = .racing lookup → lookup.Begins ∧ lookup.duty < duty) :
    ∀ other ∈ (ofHost progress).work, other < duty := by
  cases progress with
  | finished result => simp [ofHost, Activity.work]
  | racing lookup =>
    obtain ⟨begins, less⟩ := smaller lookup rfl
    exact Activity.smaller_of_begins begins less

theorem duty_lt_request (inquiry : Inquiry) : inquiry.duty < Request.duty :=
  (Pass.duty_lt_unstarted inquiry).trans (Duty.of_lt_of.mpr (.inl (by omega)))

theorem yields_beginQuestion (name : Name) (type : RecordType) :
    Session.Yields (beginQuestion name type) fun activity =>
      activity.IsSingle ∧ ∀ duty ∈ activity.work, duty < Request.duty := by
  refine (Session.yields_withResolver _).bind fun rota _ => ?_
  refine (Inquiry.yields_askNext _).bind fun result _ => .pure ?_
  cases result with
  | error failure => exact ⟨trivial, by simp [ofInquiry, Activity.work]⟩
  | ok asked =>
    refine ⟨trivial, fun duty mem => ?_⟩
    obtain rfl := Multiset.mem_singleton.mp mem
    exact duty_lt_request _

/-- An `event` may leave the `query` of a single question waiting; if it settles the query, the next
server is asked, or the question is over. -/
theorem resumeQuestion_cases {asked : Asked} {event : Event} {before after : Session}
    {activity : Activity} (ran : resumeQuestion asked event before = (.ok activity, after)) :
    (∃ query : Query, activity = .asking { asked with query := query } ∧
        query.serial = asked.query.serial ∧ after.allowance = before.allowance ∧
        after.resolver.outbox = before.resolver.outbox) ∨
      before.SameChances after ∧ activity.IsSingle ∧
        ∀ duty ∈ activity.work, duty < asked.inquiry.duty := by
  obtain ⟨⟨settled, query⟩, middle, happens, went⟩ := Op.bind_eq_ok.mp ran
  obtain ⟨same, rfl⟩ := Prod.mk.inj happens
  have serial := asked.query.keepsSerial_happen event before.resolver.registry
  rw [show (asked.query.happen event before.resolver.registry).1 = (settled, query) from
    Except.ok.inj same] at serial
  cases settled with
  | none =>
    cases went
    exact .inl ⟨query, rfl, serial, rfl, rfl⟩
  | some result =>
    obtain ⟨evaluation, session, evaluated, went⟩ := Op.bind_eq_ok.mp went
    obtain ⟨same, -, follows⟩ := Inquiry.yields_evaluate _ _ _ _ _ evaluated
    have same : before.SameChances session := ⟨same.chased, same.aliasAsked⟩
    cases evaluation with
    | response response =>
      cases went
      exact .inr ⟨same, trivial, by simp [Activity.work]⟩
    | failed failure =>
      cases went
      exact .inr ⟨same, trivial, by simp [Activity.work]⟩
    | again next =>
      cases went
      refine .inr ⟨same, trivial, fun duty mem => ?_⟩
      obtain rfl := Multiset.mem_singleton.mp mem
      exact (follows next rfl).duty_lt

/-- A `call` has less to do if one of its passes has. -/
theorem less_of_run {call : Call} {lookup : HostLookup} {front back : Runs}
    {type : RecordType} {run later : NameResolution.Run} {session : Session}
    (racing : call.activity = .racing lookup)
    (runs : lookup.race.runs = front ++ (type, run) :: back)
    (less : (session.allowance.work + later.work).Less (call.allowance.work + run.work)) :
    (call.goingOn (.racing (lookup.withRuns (front ++ (type, later) :: back))) session).work.Less
      call.work := by
  have same : (lookup.withRuns (front ++ (type, later) :: back)).race.runs =
      front ++ (type, later) :: back := rfl
  rw [work_goingOn, work, racing, Activity.work_racing runs, Activity.work_racing same,
    add_left_comm, add_left_comm call.allowance.work]
  exact less.add_left _

variable {call next : Call} {resolver after : Resolver}

/-- A `stride` leaves less to do, or it sends nothing and leaves the queries that are waited for. -/
theorem Stride.less_or_same (stride : Stride call resolver next after) : next.work.Less call.work ∨
    next.work = call.work ∧ next.serials = call.serials ∧ after.outbox = resolver.outbox := by
  cases stride with
  | begins idle first ran =>
    obtain ⟨same, begins⟩ := HostLookup.yields_begin _ _ _ _ ran
    rw [work_enterRace]
    have own : Request.duty ∈ call.activity.work := by
      rw [idle]
      exact Multiset.mem_singleton_self _
    refine .inl (less_of_smaller same.chased own (smaller_of_hostProgress fun lookup given => ?_))
    exact ⟨(begins lookup given).1, Duty.of_lt_of.mpr (.inl (Nat.lt_succ_self _))⟩
  | asks idle first ran =>
    obtain ⟨same, -, smaller⟩ := yields_beginQuestion _ _ _ _ _ ran
    exact .inl (less_of_smaller same.chased (by rw [idle]; exact Multiset.mem_singleton_self _)
      smaller)
  | starts racing first runs ran =>
    obtain ⟨same, smaller⟩ := Pass.smaller_start _ _ _ _ _ ran
    refine .inl (less_of_run racing runs ?_)
    rw [same.work_eq, Run.work_ofProgress]
    exact .of_discharge _ (Multiset.mem_singleton_self _) smaller
  | @resumes lookup type serial event matters front back pass progress session racing first runs
      addressed ran =>
    -- An event that leaves the query waiting changes nothing that counts as work.
    by_cases settles : (pass.asked.query.happen event resolver.registry).1.1 = none
    · obtain ⟨-, rfl, rfl⟩ | ⟨result, _, _, some, -⟩ := Pass.resume_cases ran
      · have serial := pass.asked.query.keepsSerial_happen event resolver.registry
        have own (later : NameResolution.Run) :
            (lookup.withRuns (front ++ (type, later) :: back)).race.runs =
              front ++ (type, later) :: back := rfl
        refine .inr ⟨?_, ?_, rfl⟩
        · rw [work_goingOn, work, racing, Activity.work_racing runs, Activity.work_racing (own _)]
          rfl
        · simp only [serials, goingOn, racing, Race.serials, own, runs, List.filterMap_append,
            List.filterMap_cons, Run.ofProgress, Run.serial?]
          rw [← serial]
          rfl
      · cases settles.symm.trans some
    · refine .inl (less_of_run racing runs ?_)
      rw [Run.work_ofProgress]
      exact Pass.resume_less ran settles
  | answers asking first ran =>
    obtain ⟨query, rfl, serial, kept, outbox⟩ | ⟨same, -, smaller⟩ := resumeQuestion_cases ran
    · refine .inr ⟨?_, ?_, outbox⟩
      · rw [work_goingOn, kept, work, asking]
        rfl
      · simp [serials, goingOn, asking, serial]
    · exact .inl (less_of_smaller same.chased (by rw [asking]; exact Multiset.mem_singleton_self _)
        smaller)
  | @closes lookup progress session racing none ran =>
    have concluded := HostLookup.conclude_cases ran
    rw [work_enterRace]
    have own : lookup.duty ∈ call.activity.work := by
      rw [racing]
      exact Multiset.mem_add.mpr (.inl (Multiset.mem_singleton_self _))
    refine .inl (less_of_smaller concluded.chased own (smaller_of_hostProgress ?_))
    rintro lookup rfl
    exact concluded.begins
  | passes first begun started strange => exact .inr ⟨rfl, rfl, rfl⟩

end Call

end NameResolution
