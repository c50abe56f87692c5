import NameResolution.Proofs.Query.Custody
import NameResolution.Proofs.Resolution.Soundness
import NameResolution.Proofs.Resolution.Spending

/-!
# Refused queries

A session whose budget is used up refuses to ask. To see this from outside, an operation is compared
with itself when one more query is left: it does the same unless it is refused.

* `Session.Parallel`: this comparison, with a property of what comes of either case. Its rules are
  those for operations one after the other.
* `Session.Spent`: a session that refuses everything.
* `Session.parallel_ask`, `Inquiry.parallel_evaluate`: servers that are asked, and inquiries that go
  on. `Inquiry.spent_askNext`: an inquiry that cannot be put to a server any more.
-/

namespace NameResolution

/-! ## One more query -/

/-- The `budget` with one more query. -/
def Budget.spare (budget : Budget) : Budget :=
  ⟨budget.total + 1, budget.remaining + 1, Nat.succ_le_succ budget.remaining_le⟩

theorem Budget.take?_spare_of_none {budget : Budget} (none : budget.take? = none) :
    budget.remaining = 0 ∧ ∃ next, budget.spare.take? = some next ∧ next.remaining = 0 := by
  obtain ⟨total, remaining, few⟩ := budget
  cases remaining with
  | zero => exact ⟨rfl, _, rfl, rfl⟩
  | succ left => cases none

theorem Budget.take?_spare_of_some {budget next : Budget} (taken : budget.take? = some next) :
    budget.spare.take? = some next.spare := by
  obtain ⟨total, remaining, few⟩ := budget
  cases remaining with
  | zero => cases taken
  | succ left =>
    cases taken
    rfl

/-- The `allowance` with one more query in its budget. -/
def Allowance.spare (allowance : Allowance) : Allowance :=
  { allowance with budget := allowance.budget.spare }

/-- The `session` with one more query in its budget. -/
def Session.spare (session : Session) : Session :=
  { session with allowance := session.allowance.spare }

/-- The `resolver` is open, and looks addresses of these `types` up. -/
structure Resolver.Serves (types : List RecordType) (resolver : Resolver) : Prop where
  opened : resolver.closed = false
  types : resolver.settings.preference.types = types

/-- The `session` cannot ask any more. -/
structure Session.Spent (types : List RecordType) (session : Session) : Prop where
  serves : session.resolver.Serves types
  remaining : session.allowance.budget.remaining = 0

/-- No query is left in the budget of the `session`. -/
def Session.Dry (session : Session) : Prop := session.allowance.budget.remaining = 0

theorem Session.dry_of_pays {α : Type} {op : Op Session α} (pays : Pays op) :
    Op.Keeps Dry op fun _ => True := by
  refine .of_state fun session dry => ?_
  obtain ⟨-, sent, -, paid⟩ := pays session
  unfold Dry at dry ⊢
  omega

/-- The `result` is not that a query was cancelled. -/
def Unbroken {α : Type} (result : Except Failure α) : Prop := result ≠ .error .cancelled

theorem unbroken_ok {α : Type} (value : α) : Unbroken (.ok value) := fun same => nomatch same

theorem unbroken_error {α : Type} {failure : Failure} (other : failure ≠ .cancelled) :
    Unbroken (.error failure : Except Failure α) := fun same => other (Except.error.inj same)

theorem Unbroken.ne {α : Type} {failure : Failure}
    (unbroken : Unbroken (.error failure : Except Failure α)) : failure ≠ .cancelled :=
  fun same => unbroken (congrArg Except.error same)

/-- With this operation the `query` ends as cancelled only if nothing is known of it any more. -/
def Query.Persists (query : Query) (op : StateM Registry (Option Settlement × Query)) : Prop :=
  ∀ registry result, registry.fate query.serial ≠ .gone → (op registry).1.1 = some result →
    Unbroken result

theorem Query.persists_check (query : Query) : query.Persists query.check := by
  intro registry result held ends
  simp only [check, stateM_bind_apply, stateM_get_apply] at ends
  cases fate : registry.fate query.serial with
  | waiting =>
    rw [fate] at ends
    cases ends
  | answered reply =>
    rw [fate] at ends
    cases reply with
    | response message =>
      cases ends
      exact unbroken_ok _
    | rejected =>
      cases ends
      exact unbroken_error (by decide)
  | gone => exact absurd fate held

theorem Query.persists_happen (query : Query) (event : Event) :
    query.Persists (query.happen event) := by
  unfold happen
  split
  · exact persists_check { query with state := .awaiting }
  · intro registry result _ ends
    cases ends
    exact unbroken_error (by simp)
  · exact persists_check query
  · intro registry result held ends
    rw [stateM_bind_apply] at ends
    rcases checked : query.check registry with ⟨⟨settled, later⟩, after⟩
    rw [checked] at ends
    cases settled with
    | none =>
      cases ends
      exact unbroken_error (by decide)
    | some own => exact persists_check query registry result held (by rwa [checked])
  · intro registry result _ ends
    cases ends

theorem Query.unbroken_register (server : Endpoint) (question : Question) (registry : Registry) :
    Unbroken (register server question registry).1 := by
  simp only [register, stateM_bind_apply, stateM_get_apply, stateM_pure_apply]
  obtain refused | ⟨id, -, added⟩ := Registry.add_cases registry.nextStart server question registry
  · rw [refused]
    exact unbroken_error (by decide)
  · rw [added]
    exact unbroken_ok _

namespace Session

section

variable {α β : Type}

/-- The operation `op` does the same when one more query is left, and leaves it. -/
def Alike (types : List RecordType) (session : Session) (op : Op Session α) (P : α → Prop) : Prop :=
  ∃ result after, op session = (result, after) ∧ op session.spare = (result, after.spare) ∧
    after.resolver.Serves types ∧ WhenOk P result

/-- The operation is refused a query. When one more is left, it takes it. -/
structure Refused (types : List RecordType) (session : Session) (op : Op Session α)
    (Q : α → Prop) : Prop where
  spent : (op session).2.Spent types
  gives : WhenOk Q (op session).1
  takes : (op session.spare).2.Dry

/-- An operation compared with itself when one more query is left. Either it does the same, and what
it gives has the property `P`; or it is refused a query, and what it gives has the property `Q`. -/
abbrev ParallelAt (types : List RecordType) (session : Session) (op : Op Session α)
    (P Q : α → Prop) : Prop :=
  Alike types session op P ∨ Refused types session op Q

/-- Such an operation at any `Session` of an open resolver. -/
def Parallel (types : List RecordType) (op : Op Session α) (P Q : α → Prop) : Prop :=
  ∀ session, session.resolver.Serves types → ParallelAt types session op P Q

/-- An operation `op` that is never refused a query. -/
def Constant (types : List RecordType) (op : Op Session α) (P : α → Prop) : Prop :=
  ∀ session, session.resolver.Serves types → Alike types session op P

variable {types : List RecordType} {session : Session} {op : Op Session α} {P Q : α → Prop}
  {P' Q' : β → Prop}

theorem Constant.pure {value : α} (holds : P value) : Constant types (Pure.pure value) P :=
  fun session serves => ⟨.ok value, session, rfl, rfl, serves, whenOk_ok.mpr holds⟩

theorem Constant.bind {next : α → Op Session β} (first : Constant types op P)
    (rest : ∀ value, P value → Constant types (next value) P') :
    Constant types (op >>= next) P' := by
  intro session serves
  obtain ⟨result, after, ran, ran', kept, holds⟩ := first session serves
  unfold Alike
  rw [Op.bind_apply, Op.bind_apply, ran, ran']
  cases result with
  | error misuse => exact ⟨.error misuse, after, rfl, rfl, kept, whenOk_error⟩
  | ok value => exact rest value (holds value rfl) after kept

theorem Constant.parallel (constant : Constant types op P) : Parallel types op P Q :=
  fun session serves => .inl (constant session serves)

theorem Alike.follow {next : α → Op Session β} (alike : Alike types session op P)
    (rest : ∀ value, P value → Parallel types (next value) P' Q') :
    ParallelAt types session (op >>= next) P' Q' := by
  obtain ⟨result, after, ran, ran', serves, holds⟩ := alike
  cases result with
  | error misuse =>
    refine .inl ⟨.error misuse, after, ?_, ?_, serves, whenOk_error⟩
    · rw [Op.bind_apply, ran]
    · rw [Op.bind_apply, ran']
  | ok value =>
    have own : (op >>= next) session = next value after := by rw [Op.bind_apply, ran]
    have twin : (op >>= next) session.spare = next value after.spare := by
      rw [Op.bind_apply, ran']
    obtain ⟨later, final, went, went', kept⟩ | ⟨spent, gives, takes⟩ :=
      rest value (holds value rfl) after serves
    · exact .inl ⟨later, final, own.trans went, twin.trans went', kept⟩
    · exact .inr ⟨by rw [own]; exact spent, by rw [own]; exact gives, by rw [twin]; exact takes⟩

/-- What comes after a refusal goes on in a `session` that refuses everything. -/
theorem Refused.bind {next : α → Op Session β} (refused : Refused types session op Q)
    (rest : ∀ value, Q value → Op.Keeps (Spent types) (next value) Q')
    (dry : ∀ value, Op.Keeps Dry (next value) fun _ => True) :
    Refused types session (op >>= next) Q' := by
  obtain ⟨spent, gives, takes⟩ := refused
  refine ⟨?_, ?_, ?_⟩
  · rcases ran : op session with ⟨_ | value, after⟩ <;> rw [ran] at spent gives <;>
      rw [Op.bind_apply, ran]
    · exact spent
    · exact (rest value (gives value rfl)).after spent
  · rcases ran : op session with ⟨_ | value, after⟩ <;> rw [ran] at spent gives <;>
      rw [Op.bind_apply, ran]
    · exact whenOk_error
    · exact (rest value (gives value rfl)).whenOk spent
  · rcases ran : op session.spare with ⟨_ | value, after⟩ <;> rw [ran] at takes <;>
      rw [Op.bind_apply, ran]
    · exact takes
    · exact (dry value).after takes

theorem ParallelAt.bind {next : α → Op Session β} (first : ParallelAt types session op P Q)
    (rest : ∀ value, P value → Parallel types (next value) P' Q')
    (refused : ∀ value, Q value → Op.Keeps (Spent types) (next value) Q')
    (pays : ∀ value, Pays (next value)) : ParallelAt types session (op >>= next) P' Q' := by
  obtain alike | refused' := first
  · exact alike.follow rest
  · exact .inr (refused'.bind refused fun value => dry_of_pays (pays value))

theorem ParallelAt.map {f : α → β} (first : ParallelAt types session op P Q)
    (same : ∀ value, P value → P' (f value)) (refused : ∀ value, Q value → Q' (f value)) :
    ParallelAt types session (op >>= fun value => Pure.pure (f value)) P' Q' :=
  first.bind (fun value holds => (Constant.pure (same value holds)).parallel)
    (fun value holds => .pure (refused value holds)) fun _ => .pure _

theorem ParallelAt.imp {P' Q' : α → Prop} (parallel : ParallelAt types session op P Q)
    (same : ∀ value, P value → P' value) (refused : ∀ value, Q value → Q' value) :
    ParallelAt types session op P' Q' := by
  obtain ⟨result, after, ran, ran', kept, holds⟩ | ⟨spent, holds, none⟩ := parallel
  · exact .inl ⟨result, after, ran, ran', kept, fun value given => same value (holds value given)⟩
  · exact .inr ⟨spent, fun value given => refused value (holds value given), none⟩

namespace Parallel

theorem pure {value : α} (holds : P value) : Parallel types (Pure.pure value) P Q :=
  (Constant.pure holds).parallel

theorem bind {next : α → Op Session β} (first : Parallel types op P Q)
    (rest : ∀ value, P value → Parallel types (next value) P' Q')
    (refused : ∀ value, Q value → Op.Keeps (Spent types) (next value) Q')
    (pays : ∀ value, Pays (next value)) : Parallel types (op >>= next) P' Q' :=
  fun session serves => (first session serves).bind rest refused pays

theorem map {f : α → β} (first : Parallel types op P Q) (same : ∀ value, P value → P' (f value))
    (refused : ∀ value, Q value → Q' (f value)) :
    Parallel types (op >>= fun value => Pure.pure (f value)) P' Q' :=
  fun session serves => (first session serves).map same refused

theorem imp {P' Q' : α → Prop} (parallel : Parallel types op P Q)
    (same : ∀ value, P value → P' value) (refused : ∀ value, Q value → Q' value) :
    Parallel types op P' Q' :=
  fun session serves => (parallel session serves).imp same refused

/-- An operation that only looks at what is the same in `session` and `session.spare`. -/
theorem read {next : Session → Op Session α} (same : ∀ session, next session.spare = next session)
    (rest : ∀ session, session.resolver.Serves types → Parallel types (next session) P Q) :
    Parallel types (MonadState.get >>= next) P Q := by
  intro session serves
  have twin : (MonadState.get >>= next : Op Session α) session.spare = next session session.spare :=
    congrFun (same session) session.spare
  obtain ⟨result, after, ran, ran', kept⟩ | ⟨spent, holds, none⟩ :=
    rest session serves session serves
  · exact .inl ⟨result, after, ran, twin.trans ran', kept⟩
  · exact .inr ⟨spent, holds, by rw [twin]; exact none⟩

end Parallel

/-- An operation after one that is `Constant`. -/
theorem Constant.follow {next : α → Op Session β} (first : Constant types op P)
    (rest : ∀ value, P value → Parallel types (next value) P' Q') :
    Parallel types (op >>= next) P' Q' :=
  fun session serves => (first session serves).follow rest

theorem constant_onResolver {op : Op Resolver α}
    (keeps : Op.Keeps (Resolver.Serves types) op P) : Constant types (onResolver op) P :=
  fun session serves => ⟨(op session.resolver).1,
    { session with resolver := (op session.resolver).2 }, rfl, rfl, keeps.after serves,
    keeps.whenOk serves⟩

theorem constant_settings : Constant types settings (·.preference.types = types) :=
  fun session serves => ⟨.ok session.resolver.settings, session, rfl, rfl, serves,
    whenOk_ok.mpr serves.types⟩

end

end Session

/-! ## Asking -/

section

variable {types : List RecordType}

namespace Resolver

theorem serves_onCache {α : Type} (op : Duration → Op Cache α) :
    Op.Keeps (Serves types) (onCache op) fun _ => True :=
  .of_state fun _ serves => ⟨serves.opened, serves.types⟩

theorem serves_onDelegations {α : Type} (op : Duration → Op Delegations α) :
    Op.Keeps (Serves types) (onDelegations op) fun _ => True :=
  .of_state fun _ serves => ⟨serves.opened, serves.types⟩

theorem serves_configuredRota :
    Op.Keeps (Serves types) (ExceptT.lift configuredRota) fun _ => True :=
  .of_state fun resolver serves => by
    show (configuredRota resolver).2.Serves types
    cases rotates : resolver.settings.rotate
    · simpa [configuredRota, rotates] using serves
    · simpa [configuredRota, rotates] using ⟨serves.opened, serves.types⟩

end Resolver

namespace Session

/-- The failure that the cache tells in `known`, if any, is one that it can keep. -/
def Recalled (known : Cached) : Prop :=
  ∀ failure, known = .hit (.error failure) → failure = .nxDomain ∨ failure = .noMatchingRecord

theorem recalled_of_resultFound? {name : Name} {found : Lookup} {result : Except Failure Answer}
    (is : resultFound? name found = some result) : Recalled (.hit result) := by
  intro failure same
  obtain rfl := Cached.hit.inj same
  cases found <;> cases is <;> simp

/-- By `followCached` the cache only tells of names that do not exist and of records that there are
not. -/
theorem recalled_followCached (type : RecordType) (now : Duration) (steps : Nat) (name : Name) :
    Op.Keeps (fun _ => True) (followCached type now steps name) Recalled := by
  induction steps generalizing name with
  | zero => exact .pure fun _ same => nomatch same
  | succ steps ih =>
    have looks : Op.Keeps (fun _ => True) (Cache.lookup name type .normal now) fun _ => True :=
      .of_state fun _ _ => trivial
    refine looks.bind fun found _ => ?_
    split
    · rename_i result is
      exact .pure (recalled_of_resultFound? is)
    · exact ih _
    · exact .pure fun _ same => nomatch same

/-- The result in `known` does not tell of a query that was cancelled. -/
def Remembered (known : Cached) : Prop :=
  ∀ result, known = .hit result → Unbroken result

/-- What is `Recalled` never tells that a query was cancelled. -/
theorem Recalled.remembered {known : Cached} (recalled : Recalled known) : Remembered known := by
  rintro result rfl same
  obtain ended | ended := recalled .cancelled (by rw [same]) <;> cases ended

theorem serves_followCached (name : Name) (type : RecordType) :
    Op.Keeps (Resolver.Serves types)
      (Resolver.onCache fun now => followCached type now cachedAliases name) Remembered := by
  refine .of_run (fun _ serves => ⟨serves.opened, serves.types⟩) fun resolver _ => ?_
  exact ((recalled_followCached type resolver.now cachedAliases name).imp
    fun _ => Recalled.remembered).whenOk trivial

theorem constant_consultCache (name : Name) (type : RecordType) :
    Constant types (consultCache name type) Remembered :=
  constant_onResolver (serves_followCached name type)

theorem constant_serversAround (name : Name) :
    Constant types (serversAround name) fun _ => True := by
  refine constant_settings.bind fun settings _ => ?_
  refine (constant_onResolver (Resolver.serves_onDelegations _)).bind fun known _ => ?_
  cases known with
  | none =>
    exact (constant_onResolver Resolver.serves_configuredRota).bind fun _ _ => .pure trivial
  | some around => exact .pure trivial

theorem constant_learn (response : Message) : Constant types (learn response) fun _ => True :=
  (constant_onResolver (Resolver.serves_onCache _)).bind fun _ _ => .pure trivial

theorem takeQuery_of_none {session : Session} (none : session.allowance.budget.take? = none) :
    takeQuery session = (.ok false, session) := by simp [takeQuery, none]

theorem takeQuery_of_some (session : Session) {budget : Budget}
    (taken : session.allowance.budget.take? = some budget) :
    takeQuery session =
      (.ok true, { session with allowance := { session.allowance with budget := budget } }) := by
  simp only [takeQuery, Op.bind_apply, Op.get_apply, taken]
  rfl

theorem parallel_takeQuery : Parallel types takeQuery (· = true) (· = false) := by
  intro session serves
  cases taken : session.allowance.budget.take? with
  | none =>
    obtain ⟨used, next, taken', left⟩ := Budget.take?_spare_of_none taken
    refine .inr ⟨?_, ?_, ?_⟩
    · rw [takeQuery_of_none taken]
      exact ⟨serves, used⟩
    · rw [takeQuery_of_none taken]
      exact whenOk_ok.mpr rfl
    · rw [takeQuery_of_some session.spare taken']
      exact left
  | some next =>
    exact .inl ⟨_, _, takeQuery_of_some session taken,
      takeQuery_of_some session.spare (Budget.take?_spare_of_some taken), serves,
      whenOk_ok.mpr rfl⟩

theorem constant_register (server : Endpoint) (question : Question) :
    Constant types (withResolver (Resolver.onRegistry (Query.register server question)))
      Unbroken :=
  fun session serves => ⟨_, _, rfl, rfl, ⟨serves.opened, serves.types⟩,
    whenOk_ok.mpr (Query.unbroken_register server question session.resolver.registry)⟩

theorem constant_send (query : Query) : Constant types (send query) fun _ => True := by
  intro session serves
  have hook : session.spare.resolver.hook = session.resolver.hook := rfl
  simp only [Alike, send, Op.bind_apply, Op.get_apply, hook]
  generalize (Query.begin session.resolver.hook).runOn query = begun
  obtain ⟨misuse | octets, begun⟩ := begun
  · exact ⟨_, _, rfl, rfl, ⟨serves.opened, serves.types⟩, whenOk_error⟩
  · exact ⟨_, _, rfl, rfl, ⟨serves.opened, serves.types⟩, whenOk_ok.mpr trivial⟩

/-- The operation `ask` is refused if the budget is used up. -/
theorem parallel_ask (server : Endpoint) (name : Name) (type : RecordType) :
    Parallel types (ask server name type) Unbroken (· = .error .budgetExhausted) := by
  unfold ask
  refine .read (fun _ => rfl) fun session serves => ?_
  dsimp only
  rw [serves.opened, if_neg Bool.false_ne_true]
  intro session serves
  -- With a query left both sessions go on alike; without one the refusal comes at once.
  obtain taken | refused := parallel_takeQuery session serves
  · refine taken.follow ?_
    rintro _ rfl
    refine (constant_register server _).follow fun registered unbroken => ?_
    cases registered with
    | error failure => exact .pure (unbroken_error unbroken.ne)
    | ok query => exact (constant_send query).follow fun sent _ => .pure (unbroken_ok sent)
  · refine .inr (refused.bind ?_ fun taken => ?_)
    · rintro _ rfl
      exact .pure rfl
    · cases taken with
      | false => exact .pure trivial
      | true =>
        have registers : Op.Keeps Dry (withResolver
            (Resolver.onRegistry (Query.register server (.internet name type)))) fun _ => True :=
          .of_state fun _ dry => dry
        refine registers.bind fun registered _ => ?_
        cases registered with
        | error failure => exact .pure trivial
        | ok query =>
          refine Op.Keeps.bind (.of_state fun session dry => ?_) fun sent _ => .pure trivial
          unfold Dry
          rwa [(send_spec query session).1]

/-- In a session that cannot ask any more, a `server` is not asked. -/
theorem spent_ask (server : Endpoint) (name : Name) (type : RecordType) :
    Op.Keeps (Spent types) (ask server name type) (· = .error .budgetExhausted) := by
  intro session spent
  have refuses : takeQuery session = (.ok false, session) := by
    obtain refused | ⟨budget, -, -, one⟩ := takeQuery_spec session
    · exact refused
    · exact absurd spent.remaining (by omega)
  simp only [ask, Op.bind_apply, Op.get_apply, spent.serves.opened, if_neg Bool.false_ne_true,
    refuses]
  exact ⟨spent, rfl⟩

theorem spent_onResolver {α : Type} {op : Op Resolver α} {P : α → Prop}
    (keeps : Op.Keeps (Resolver.Serves types) op P) : Op.Keeps (Spent types) (onResolver op) P :=
  .of_run (fun _ spent => ⟨keeps.after spent.serves, spent.remaining⟩)
    fun _ spent => keeps.whenOk spent.serves

theorem spent_serversAround (name : Name) :
    Op.Keeps (Spent types) (serversAround name) fun _ => True := by
  refine Op.Keeps.bind (P := fun _ => True) (.of_state fun _ => id) fun settings _ => ?_
  refine (spent_onResolver (Resolver.serves_onDelegations _)).bind fun known _ => ?_
  cases known with
  | none =>
    exact (spent_onResolver Resolver.serves_configuredRota).bind fun _ _ => .pure trivial
  | some around => exact .pure trivial

theorem spent_settings : Op.Keeps (Spent types) settings (·.preference.types = types) :=
  fun _ spent => ⟨spent, spent.serves.types⟩

end Session

end

/-! ## Inquiries -/

/-- The last failure of the `inquiry` is not that a query was cancelled. -/
def Inquiry.Clean (inquiry : Inquiry) : Prop := inquiry.lastFailure ≠ some .cancelled

/-- The pass goes on, or it ends, but not because a query was cancelled: its result is
`Unbroken`. -/
def Turn.Clean : Turn → Prop
  | .finished result => Unbroken result
  | .asked next => next.inquiry.Clean

/-- Nothing tells of a query that was `cancelled`. -/
def Evaluation.Clean : Evaluation → Prop
  | .response _ => True
  | .again asked => asked.inquiry.Clean
  | .failed failure => failure ≠ .cancelled

/-- What has come of an inquiry for which a query was refused. It failed, not because a query was
cancelled, and under a `condition` because the budget is used up. -/
def Tells (condition : Prop) {α : Type} (result : Except Failure α) : Prop :=
  ∃ failure, result = .error failure ∧ failure ≠ .cancelled ∧
    (condition → failure = .budgetExhausted)

theorem Tells.mono {condition stronger : Prop} {α : Type} {result : Except Failure α}
    (tells : Tells condition result) (implies : stronger → condition) : Tells stronger result := by
  obtain ⟨failure, rfl, other, exhausted⟩ := tells
  exact ⟨failure, rfl, other, fun holds => exhausted (implies holds)⟩

theorem tells_budgetExhausted (condition : Prop) {α : Type} :
    Tells condition (.error .budgetExhausted : Except Failure α) :=
  ⟨_, rfl, (fun same => nomatch same), fun _ => rfl⟩

section

variable {types : List RecordType}

namespace Inquiry

theorem Clean.failure_ne {inquiry : Inquiry} (clean : inquiry.Clean) :
    inquiry.lastFailure.getD .noServers ≠ .cancelled := by
  unfold Clean at clean
  cases known : inquiry.lastFailure with
  | none => exact fun same => nomatch same
  | some failure =>
    rintro rfl
    exact clean known

theorem parallel_askServer {inquiry : Inquiry} (clean : inquiry.Clean) (server : Endpoint) :
    Session.Parallel types (inquiry.askServer server) (fun result => (Turn.ofInquiry result).Clean)
      (· = .error .budgetExhausted) := by
  refine (Session.parallel_ask server inquiry.name inquiry.type).map ?_ ?_
  · rintro (failure | query) unbroken
    · exact unbroken_error unbroken.ne
    · exact clean
  · rintro _ rfl
    rfl

theorem parallel_askNext {inquiry : Inquiry} (clean : inquiry.Clean) :
    Session.Parallel types inquiry.askNext (fun result => (Turn.ofInquiry result).Clean)
      (· = .error .budgetExhausted) := by
  unfold askNext
  split
  · rename_i server rota _
    have same : { inquiry with rota := rota : Inquiry }.Clean := clean
    exact parallel_askServer same server
  · exact .pure (unbroken_error clean.failure_ne)

theorem parallel_retry (inquiry : Inquiry) {failure : Failure} (other : failure ≠ .cancelled) :
    Session.Parallel types (inquiry.retry failure) (fun result => (Turn.ofInquiry result).Clean)
      (· = .error .budgetExhausted) :=
  parallel_askNext fun same => other (Option.some.inj same)

theorem parallel_evaluate (inquiry : Inquiry) {result : Settlement} (unbroken : Unbroken result) :
    Session.Parallel types (inquiry.evaluate result)
      (fun evaluation => evaluation.Clean ∧
        ∀ response, evaluation = .response response → usable result = .ok response)
      (· = .failed .budgetExhausted) := by
  unfold evaluate
  cases used : usable result with
  | ok response =>
    refine (Session.constant_learn response).follow fun _ _ => .pure ⟨trivial, ?_⟩
    intro other same
    rw [Evaluation.response.inj same]
  | error failure =>
    -- A failure that counts as such is not that of a query that was cancelled.
    have other : failure ≠ .cancelled := by
      rintro rfl
      unfold usable at used
      split at used
      · split at used <;> cases used
      · exact unbroken (congrArg Except.error (Except.error.inj used))
    dsimp only
    split
    · refine (parallel_retry inquiry other).bind ?_ ?_ ?_
      · rintro (failure | asked) clean
        · exact .pure ⟨clean.ne, fun _ same => nomatch same⟩
        · exact .pure ⟨clean, fun _ same => nomatch same⟩
      · rintro _ rfl
        exact .pure rfl
      · rintro (failure | asked)
        · exact .pure _
        · exact .pure _
    · exact .pure ⟨other, fun _ same => nomatch same⟩

/-- An `inquiry` that cannot be put to a server any more fails. If it is the turn of a server, it
fails because the budget is used up. -/
theorem spent_askNext {inquiry : Inquiry} (clean : inquiry.Clean) :
    Op.Keeps (Session.Spent types) inquiry.askNext (Tells (inquiry.rota.turn?.isSome = true)) := by
  unfold askNext
  cases inquiry.rota.turn? with
  | none => exact .pure ⟨_, rfl, clean.failure_ne, fun same => nomatch same⟩
  | some turn =>
    refine (Session.spent_ask _ _ _).map ?_
    rintro _ rfl
    exact tells_budgetExhausted _

end Inquiry

end

end NameResolution
