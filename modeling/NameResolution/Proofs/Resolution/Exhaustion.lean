import NameResolution.Proofs.Resolution.Refusals
import NameResolution.Proofs.Resolution.Upkeep

/-!
# When a budget is said to be used up

A pass that ends because the budget is used up says the truth: no query is left. Failures that are
kept for later, and what the cache tells, are never this one.

* `Session.Gives`: what comes of an operation that succeeds, in a session with given settings.
* `Session.Bears`: a result tells that the budget is used up only if it is.
* `Pass.Fair`: a pass that goes on still asks for the same type; the result of one that has ended is
  borne out by the session.
* `Pass.fair_begin`, `Pass.fair_conclude`: so it is with every pass that looks up no servers.
-/

namespace NameResolution

/-! ## Queries -/

namespace Query

theorem failure_register (server : Endpoint) (question : Question) (registry : Registry)
    (failure : Failure) (refused : (register server question registry).1 = .error failure) :
    failure ≠ .budgetExhausted := by
  simp only [register, stateM_bind_apply, stateM_get_apply, stateM_pure_apply] at refused
  obtain full | ⟨id, -, added⟩ := Registry.add_cases registry.nextStart server question registry
  · rw [full] at refused
    cases refused
    decide
  · rw [added] at refused
    cases refused

/-- With this operation no `Query` ends because a budget is used up. -/
def Direct (op : StateM Registry (Option Settlement × Query)) : Prop :=
  ∀ registry result, (op registry).1.1 = some result → result ≠ .error .budgetExhausted

theorem direct_check (query : Query) : Direct query.check := by
  intro registry result ends
  simp only [check, stateM_bind_apply, stateM_get_apply] at ends
  rcases fate : registry.fate query.serial with _ | (message | _) | _
  all_goals
    rw [fate] at ends
    cases ends
  all_goals exact fun same => by cases same

theorem direct_happen (query : Query) (event : Event) : Direct (query.happen event) := by
  unfold happen
  split
  · exact direct_check _
  · intro registry result ends
    cases ends
    simp
  · exact direct_check query
  · intro registry result ends
    rw [stateM_bind_apply] at ends
    rcases checked : query.check registry with ⟨⟨settled, later⟩, after⟩
    rw [checked] at ends
    cases settled with
    | none =>
      cases ends
      simp
    | some own => exact direct_check query registry result (by rwa [checked])
  · intro registry result ends
    cases ends

end Query

/-! ## Sessions -/

namespace Session

section

variable {settings : Settings} {α β : Type} {op : Op Session α} {P : α → Session → Prop}
  {Q : β → Session → Prop}

/-- The operation keeps the `settings`. If it succeeds, its value and the `Session` after it are as
wanted. -/
abbrev Gives (settings : Settings) (op : Op Session α) (P : α → Session → Prop) : Prop :=
  Op.Triple (·.resolver.settings = settings) op
    (fun value session => session.resolver.settings = settings ∧ P value session) fun _ => True

/-- What an operation gives that needs the `settings` only, it also gives if more is known. -/
theorem Gives.given (gives : Gives settings op P) (fact : Session → Prop) :
    Op.Triple (fun session => session.resolver.settings = settings ∧ fact session) op
      (fun value session => session.resolver.settings = settings ∧ P value session) fun _ => True :=
  gives.conseq (fun _ => And.left) (fun _ _ => id) fun _ => id

theorem Gives.pure {value : α} (holds : ∀ session, P value session) :
    Gives settings (pure value) P := .ret fun session same => ⟨same, holds session⟩

/-- The operation `op` keeps the settings. -/
abbrev KeepsSettings (op : Op Session α) : Prop :=
  ∀ settings, Gives settings op fun _ _ => True

theorem KeepsSettings.follow {next : α → Op Session β} (keeps : KeepsSettings op)
    (rest : ∀ value, Gives settings (next value) Q) : Gives settings (op >>= next) Q :=
  (keeps settings).bind fun value => (rest value).given _

theorem keepsSettings_of_same
    (same : ∀ session, (op session).2.resolver.settings = session.resolver.settings) :
    KeepsSettings op := by
  intro settings before own
  have kept := same before
  rcases ran : op before with ⟨misuse | value, after⟩
  · exact trivial
  · rw [ran] at kept
    exact ⟨kept.trans own, trivial⟩

theorem keepsSettings_get : KeepsSettings (get : Op Session Session) :=
  keepsSettings_of_same fun _ => rfl

theorem gives_settings : Gives settings Session.settings fun own _ => own = settings :=
  fun _ same => ⟨same, same⟩

theorem keepsSettings_onDelegations (op : Duration → Op Delegations α) :
    KeepsSettings (onResolver (Resolver.onDelegations op)) := keepsSettings_of_same fun _ => rfl

theorem keepsSettings_learn (response : Message) : KeepsSettings (learn response) :=
  keepsSettings_of_same fun session => by
    rw [learn, Op.bind_apply]
    split
    · rename_i ran
      exact congrArg (·.2.resolver.settings) ran.symm
    · rename_i ran
      exact congrArg (·.2.resolver.settings) ran.symm

theorem keepsSettings_serversAround (name : Name) : KeepsSettings (serversAround name) := by
  intro settings
  unfold serversAround
  refine gives_settings.bind fun own => ?_
  refine ((keepsSettings_onDelegations _).follow fun known => ?_).given _
  cases known with
  | some around => exact .pure fun _ => trivial
  | none =>
    refine KeepsSettings.follow (keepsSettings_of_same fun session => ?_) fun _ => .pure fun _ => trivial
    rw [withResolver_apply]
    cases rotates : session.resolver.settings.rotate <;> simp [Resolver.configuredRota, rotates]

theorem keepsSettings_send (query : Query) : KeepsSettings (send query) :=
  keepsSettings_of_same fun session => by
    simp only [send, Op.bind_apply, Op.get_apply]
    generalize (Query.begin session.resolver.hook).runOn query = begun
    obtain ⟨_ | octets, begun⟩ := begun <;> rfl

/-! ### What results tell -/

/-- If the `result` says that the budget is used up, no query is left. -/
def Bears (session : Session) (result : Except Failure α) : Prop :=
  result = .error .budgetExhausted → session.Dry

theorem bears_ok (session : Session) (value : α) : session.Bears (.ok value) :=
  fun same => nomatch same

theorem bears_error (session : Session) {failure : Failure} (other : failure ≠ .budgetExhausted) :
    session.Bears (.error failure : Except Failure α) :=
  fun same => absurd (Except.error.inj same) other

theorem bears_congr {session : Session} {failure : Failure}
    (bears : session.Bears (.error failure : Except Failure α)) :
    session.Bears (.error failure : Except Failure β) :=
  fun same => bears (by rw [Except.error.inj same])

theorem gives_takeQuery : Gives settings takeQuery fun taken session =>
    taken = false → session.Dry := by
  intro before same
  cases taken : before.allowance.budget.take? with
  | none =>
    rw [takeQuery_of_none taken]
    exact ⟨same, fun _ => (Budget.take?_spare_of_none taken).1⟩
  | some budget =>
    rw [takeQuery_of_some before taken]
    exact ⟨same, fun refused => by cases refused⟩

/-- A `server` is not asked for lack of queries only if none is left. -/
theorem bears_ask (server : Endpoint) (name : Name) (type : RecordType) :
    Gives settings (ask server name type) fun asking session => session.Bears asking := by
  unfold ask
  refine keepsSettings_get.follow fun session => ?_
  split
  · exact .pure fun _ => bears_error _ (by decide)
  refine gives_takeQuery.bind fun taken => ?_
  cases taken with
  | false => exact .ret fun _ ⟨same, dry⟩ => ⟨same, fun _ => dry rfl⟩
  | true =>
    have registers : Gives settings (withResolver (Resolver.onRegistry
        (Query.register server (.internet name type)))) fun registered _ =>
          ∀ failure, registered = .error failure → failure ≠ .budgetExhausted :=
      fun before same => ⟨same, Query.failure_register server _ before.resolver.registry⟩
    refine Gives.given (registers.bind fun registered => ?_) _
    cases registered with
    | error failure => exact .ret fun _ ⟨same, other⟩ => ⟨same, bears_error _ (other failure rfl)⟩
    | ok query =>
      exact ((keepsSettings_send query).follow fun sent => .pure fun _ => bears_ok _ sent).given _

/-- What `consultCache` tells has nothing to do with a budget. -/
theorem gives_consultCache (name : Name) (type : RecordType) :
    Gives settings (consultCache name type) fun known session =>
      ∀ result, known = .hit result → session.Bears result := by
  intro before same
  rcases ran : consultCache name type before with ⟨misuse | known, after⟩
  · exact trivial
  refine ⟨(congrArg (·.2.resolver.settings) ran.symm).trans same, ?_⟩
  rintro result rfl rfl
  obtain ⟨cache, followed⟩ := consultCache_eq_ok ran
  have recalled : WhenOk Recalled (followCached type before.resolver.now cachedAliases name
      before.resolver.cache).1 := (recalled_followCached type _ cachedAliases name).whenOk trivial
  rw [followed] at recalled
  obtain other | other := recalled _ rfl _ rfl <;> cases other

end

end Session

open Session (Gives)

section

variable {settings : Settings} {type : RecordType} {depth : Nat}

/-! ## Inquiries -/

/-- The `inquiry` asks for the `type` at the `depth`. Its last failure is not that the budget is
used up. -/
structure Inquiry.Seeks (inquiry : Inquiry) (type : RecordType) (depth : Nat) : Prop where
  type : inquiry.type = type
  depth : inquiry.depth = depth
  frank : inquiry.lastFailure ≠ some .budgetExhausted

/-- What comes of an inquiry: it still seeks the same, or the `session` bears its `Failure` out. -/
def Asked.Fair (type : RecordType) (depth : Nat) (result : Except Failure Asked)
    (session : Session) : Prop :=
  WhenOk (·.inquiry.Seeks type depth) result ∧ session.Bears result

namespace Inquiry

variable {inquiry : Inquiry}

/-- The `lastFailure` that is kept for later is not that the budget is used up. -/
theorem Seeks.failure_ne (seeks : inquiry.Seeks type depth) :
    inquiry.lastFailure.getD .noServers ≠ .budgetExhausted := by
  have frank := seeks.frank
  cases last : inquiry.lastFailure with
  | none => decide
  | some failure => simpa [last] using frank

theorem fair_askServer (seeks : inquiry.Seeks type depth) (server : Endpoint) :
    Gives settings (inquiry.askServer server) (Asked.Fair type depth) := by
  refine (Session.bears_ask _ _ _).bind fun asking => ?_
  cases asking with
  | ok query => exact .ret fun session ⟨same, _⟩ => ⟨same, whenOk_ok.mpr seeks, session.bears_ok _⟩
  | error failure =>
    exact .ret fun session ⟨same, bears⟩ => ⟨same, whenOk_error, Session.bears_congr bears⟩

theorem fair_askNext (seeks : inquiry.Seeks type depth) :
    Gives settings inquiry.askNext (Asked.Fair type depth) := by
  unfold askNext
  split
  · rename_i server rota _
    have same : { inquiry with rota := rota : Inquiry }.Seeks type depth :=
      ⟨seeks.type, seeks.depth, seeks.frank⟩
    exact fair_askServer same server
  · exact .pure fun session => ⟨whenOk_error, session.bears_error seeks.failure_ne⟩

theorem fair_retry (seeks : inquiry.Seeks type depth) {failure : Failure}
    (other : failure ≠ .budgetExhausted) :
    Gives settings (inquiry.retry failure) (Asked.Fair type depth) :=
  fair_askNext ⟨seeks.type, seeks.depth, fun same => other (Option.some.inj same)⟩

/-- What the end of a query has come to: the `inquiry` still `Seeks` the same, or the `session`
bears its `failure` out. -/
def Evaluated.Fair (type : RecordType) (depth : Nat) : Evaluation → Session → Prop
  | .response _, _ => True
  | .again asked, _ => asked.inquiry.Seeks type depth
  | .failed failure, session => session.Bears (.error failure : Settlement)

theorem fair_evaluate (seeks : inquiry.Seeks type depth) {result : Settlement}
    (direct : result ≠ .error .budgetExhausted) :
    Gives settings (inquiry.evaluate result) (Evaluated.Fair type depth) := by
  have used : usable result ≠ .error .budgetExhausted := by
    unfold usable
    split
    · split <;> simp
    · exact direct
  unfold evaluate
  split
  · exact (Session.keepsSettings_learn _).follow fun _ => .pure fun _ => trivial
  rename_i failure fails
  have other : failure ≠ .budgetExhausted := fun same => used (same ▸ fails)
  split
  · refine (fair_retry seeks other).bind fun retried => ?_
    cases retried with
    | ok asked => exact .ret fun _ ⟨same, seeks, _⟩ => ⟨same, seeks asked rfl⟩
    | error failure => exact .ret fun _ ⟨same, _, bears⟩ => ⟨same, Session.bears_congr bears⟩
  · exact .pure fun session => session.bears_error other

end Inquiry

/-! ## Passes -/

namespace Pass

/-- How a pass for a `type` at a `depth` goes on: it asks for the type, or the `session` bears its
`result` out. -/
def Fair (type : RecordType) (depth : Nat) : Turn → Session → Prop
  | .asked asked, _ => asked.inquiry.Seeks type depth
  | .finished result, session => session.Bears result

theorem fair_ofInquiry {op : Op Session (Except Failure Asked)}
    (fair : Gives settings op (Asked.Fair type depth)) :
    Gives settings (do return Turn.ofInquiry (← op)) (Fair type depth) := by
  refine fair.bind fun result => ?_
  cases result with
  | ok asked => exact .ret fun _ ⟨same, seeks, _⟩ => ⟨same, seeks asked rfl⟩
  | error failure => exact .ret fun _ ⟨same, _, bears⟩ => ⟨same, Session.bears_congr bears⟩

/-- A pass begins fair. -/
theorem fair_begin (name : Name) (type : RecordType) (depth : Nat) :
    Gives settings (begin name type depth) (Fair type depth) := by
  unfold begin
  refine (Session.gives_consultCache name type).bind fun known => ?_
  cases known with
  | hit result => exact .ret fun _ ⟨same, bears⟩ => ⟨same, bears result rfl⟩
  | miss name =>
    refine Gives.given ((Session.keepsSettings_serversAround name).follow fun around =>
      fair_ofInquiry (Inquiry.fair_askNext ?_)) _
    exact ⟨rfl, rfl, fun same => nomatch same⟩

theorem fair_chase {asked : Asked} (seeks : asked.inquiry.Seeks type depth) (target : Name) :
    Gives settings (chase asked target) (Fair type depth) := by
  unfold chase
  refine Session.keepsSettings_get.follow fun session => ?_
  split
  · exact .pure fun session => session.bears_error (by decide)
  have marks : Session.KeepsSettings (modify fun session : Session => { session with
      allowance := { session.allowance with chased := true } }) :=
    Session.keepsSettings_of_same fun _ => rfl
  refine marks.follow fun _ => (Session.gives_consultCache target asked.inquiry.type).bind
    fun known => ?_
  cases known with
  | hit result => exact .ret fun _ ⟨same, bears⟩ => ⟨same, bears result rfl⟩
  | miss target =>
    have same : { asked.inquiry with name := target : Inquiry }.Seeks type depth :=
      ⟨seeks.type, seeks.depth, seeks.frank⟩
    exact (fair_ofInquiry (Inquiry.fair_askServer same _)).given _

theorem fair_redirect {inquiry : Inquiry} (seeks : inquiry.Seeks type depth) (referral : Referral)
    (glue : List RecordSet) :
    Gives settings (redirect inquiry referral glue) (Fair type depth) := by
  unfold redirect
  refine Session.gives_settings.bind fun own => Gives.given ?_ _
  refine (Session.keepsSettings_onDelegations _).follow fun _ => ?_
  dsimp only
  split
  · exact .pure fun session => session.bears_error seeks.failure_ne
  · exact fair_ofInquiry (Inquiry.fair_askNext ⟨seeks.type, seeks.depth, seeks.frank⟩)

/-- A pass that stays fair and waits for no other one: the case of `refer` and `conclude` at the
deepest level. -/
def FairAlone (type : RecordType) (depth : Nat) (next : Turn × List Gathering)
    (session : Session) : Prop :=
  next.2 = [] ∧ Fair type depth next.1 session

theorem fairAlone_map {op : Op Session Turn} (fair : Gives settings op (Fair type depth)) :
    Gives settings (do return (← op, [])) (FairAlone type depth) :=
  fair.bind fun _ => .ret fun _ ⟨same, fair⟩ => ⟨same, rfl, fair⟩

/-- At the deepest level `refer` looks up no servers. -/
theorem fair_refer {inquiry : Inquiry} (seeks : inquiry.Seeks type depth)
    (deep : ¬ depth < maxDepth) (referral : Referral) :
    Gives settings (refer inquiry referral) (FairAlone type depth) := by
  unfold refer
  refine Session.gives_settings.bind fun own => Gives.given ?_ _
  rw [seeks.depth, if_neg deep]
  exact fairAlone_map (fair_redirect seeks referral _)

/-- At the deepest level `conclude` leaves a pass fair. -/
theorem fair_conclude {asked : Asked} (seeks : asked.inquiry.Seeks type depth)
    (deep : ¬ depth < maxDepth) {result : Settlement} (direct : result ≠ .error .budgetExhausted) :
    Gives settings (conclude asked result) (FairAlone type depth) := by
  unfold conclude
  refine (Inquiry.fair_evaluate seeks direct).bind fun evaluation => ?_
  cases evaluation with
  | again next => exact .ret fun _ ⟨same, seeks⟩ => ⟨same, rfl, seeks⟩
  | failed failure => exact .ret fun _ ⟨same, bears⟩ => ⟨same, rfl, Session.bears_congr bears⟩
  | response response =>
    refine Gives.given ?_ _
    -- The first three outcomes end the pass with no word of the budget; the others go on with
    -- operations that are fair.
    unfold react
    dsimp only
    split
    · exact .pure fun session => ⟨rfl, session.bears_ok _⟩
    · exact .pure fun session => ⟨rfl, session.bears_error (by decide)⟩
    · exact .pure fun session => ⟨rfl, session.bears_error (by decide)⟩
    · exact fairAlone_map (fair_chase seeks _)
    · split
      · exact fair_refer seeks deep _
      · have other : Failure.serverFailure response.rcode ≠ .budgetExhausted := by simp
        have fair : Gives settings _ (FairAlone type depth) :=
          fairAlone_map (fair_ofInquiry (Inquiry.fair_retry seeks other))
        rwa [bind_assoc] at fair

end Pass

end

end NameResolution
