import NameResolution.Proofs.Query.Custody
import NameResolution.Proofs.Resolution.Spending

/-!
# Queries under way

A pass waits for one query at a time. Whatever it does, it begins new queries only by asking
servers, and it gives up none but those that have ended. So what holds of a resolver and of the
queries that are waited for is kept by all passes if it is kept by the few operations that passes
are made of.

* `Regime`: something that holds of a resolver and the queries that are waited for, and that these
  operations keep.
* `Regime.Leads`: an operation keeps it, with the queries that its result waits for in addition.
* `Regime.leads_start`, `Regime.triple_resume`: passes keep it.
-/

namespace NameResolution

/-! ## What is waited for -/

/-- The `query` that a `Turn` waits for. -/
def Turn.queries : Turn → List Query
  | .finished _ => []
  | .asked next => [next.query]

/-- The `query` that a `pass` waits for if it has to go on. -/
def Progress.queries : Progress → List Query
  | .finished _ => []
  | .waiting pass => [pass.asked.query]

/-- The `query` that is put next after the end of another one. -/
def Evaluation.queries : Evaluation → List Query
  | .again asked => [asked.query]
  | .response _ | .failed _ => []

/-- The `query` for the address of a server. -/
def Pass.Gathered.queries : Pass.Gathered → List Query
  | .complete _ => []
  | .waiting asked _ _ _ => [asked.query]

/-- The `Query` of an inquiry that has been put to a server. -/
def Asked.queriesOf (result : Except Failure Asked) : List Query :=
  result.toOption.toList.map Asked.query

/-- A `response` that is gone by is the one that the query has ended with. -/
theorem Inquiry.eq_of_usable {result : Settlement} {response : Message}
    (used : usable result = .ok response) : result = .ok response := by
  unfold usable at used
  split at used
  · split at used
    · exact used
    · cases used
  · cases used

/-- What a `response` says is kept in the `cache`, and nowhere else. -/
theorem Session.resolver_learn (response : Message) (session : Session) :
    ∃ cache, (learn response session).2.resolver = { session.resolver with cache := cache } := by
  rw [learn, bind_pure_comp, Op.map_apply]
  exact ⟨_, rfl⟩

/-! ## Regimes -/

/-- What holds after an event of a `query`: the query is still waited for, or it has ended. -/
def Aftermath (Holds : List Query → Resolver → Prop) (Ends : Settlement → Prop)
    (rest : List Query) : Option Settlement × Query → Resolver → Prop
  | (none, query), resolver => Holds (query :: rest) resolver
  | (some result, _), resolver => Holds rest resolver ∧ Ends result

/-- It is enough to see what becomes of a `query` that goes on as before, that has been written, or
that has ended and gives up its registration. -/
theorem Aftermath.of_happened {Holds : List Query → Resolver → Prop} {Ends : Settlement → Prop}
    {rest : List Query} {query : Query} {resolver : Resolver} (event : Event)
    (nothing : Holds (query :: rest) resolver)
    (written : query.state = .writing → Holds ({ query with state := .awaiting } :: rest) resolver)
    (ends : ∀ result, (∀ message, result = .ok message →
        (query.serial, Reply.response message) ∈ resolver.registry.replies) →
      Holds rest { resolver with
        registry := resolver.registry.release query.server query.id query.serial } ∧ Ends result) :
    Aftermath Holds Ends rest (Resolver.onRegistry (query.happen event) resolver).1
      (Resolver.onRegistry (query.happen event) resolver).2 := by
  have effect := query.proceeds_happen event resolver.registry
  show Aftermath _ _ rest (query.happen event resolver.registry).1
    { resolver with registry := (query.happen event resolver.registry).2 }
  generalize query.happen event resolver.registry = happened at effect ⊢
  cases effect with
  | nothing => exact nothing
  | written writing => exact written writing
  | ends result _ handed => exact ends result handed

/-- What holds of a resolver and the queries that are waited for, and how queries can end as long as
it does. A theorem about all operations of passes at once is one about a `Regime`. -/
structure Regime where
  Holds : List Query → Resolver → Prop
  Ends : Settlement → Prop
  mono {queries more : List Query} {resolver : Resolver} (within : queries ⊆ more)
    (holds : Holds queries resolver) : Holds more resolver
  ask (rest : List Query) (server : Endpoint) (name : Name) (type : RecordType) :
    Op.Triple (Holds rest ·.resolver) (Session.ask server name type)
      (fun asking session => Holds (asking.toOption.toList ++ rest) session.resolver)
      (Holds rest ·.resolver)
  consult {rest : List Query} {session : Session} (name : Name) (type : RecordType)
    (holds : Holds rest session.resolver) :
    Holds rest (Session.consultCache name type session).2.resolver
  learn {rest : List Query} {session : Session} {response : Message}
    (ends : Ends (.ok response)) (holds : Holds rest session.resolver) :
    Holds rest (Session.learn response session).2.resolver
  elsewhere {rest : List Query} {resolver : Resolver} (delegations : Delegations) (rotation : Nat)
    (holds : Holds rest resolver) :
    Holds rest { resolver with delegations := delegations, rotation := rotation }
  happen {rest : List Query} {resolver : Resolver} (query : Query) (event : Event)
    (holds : Holds (query :: rest) resolver) :
    Aftermath Holds Ends rest (Resolver.onRegistry (query.happen event) resolver).1
      (Resolver.onRegistry (query.happen event) resolver).2
  drop {rest : List Query} {resolver : Resolver} (query : Query)
    (holds : Holds (query :: rest) resolver) :
    Holds rest (Resolver.onRegistry query.drop resolver).2

namespace Regime

variable (regime : Regime)

/-- The `regime` holds of the `resolver` of a `session`. -/
def At (queries : List Query) (session : Session) : Prop := regime.Holds queries session.resolver

/-- The operation keeps the regime, where the `queries` that its value waits for have come in
addition. -/
abbrev Leads {α : Type} (rest : List Query) (op : Op Session α) (queries : α → List Query) :
    Prop :=
  Op.Triple (regime.At rest) op (fun value => regime.At (queries value ++ rest)) (regime.At rest)

/-- The operation keeps the regime, and no `Query` comes in addition. -/
abbrev Quiet {α : Type} (rest : List Query) (op : Op Session α) : Prop :=
  regime.Leads rest op fun _ => []

variable {regime} {rest : List Query}

/-- An operation keeps the `regime` if the state after it does, whether it was refused or not. -/
theorem quiet_of_keeps {α : Type} {op : Op Session α}
    (keeps : ∀ session, regime.At rest session → regime.At rest (op session).2) :
    regime.Quiet rest op := .invariant keeps

theorem quiet_get : regime.Quiet rest (get : Op Session Session) := quiet_of_keeps fun _ => id

theorem quiet_settings : regime.Quiet rest Session.settings := quiet_of_keeps fun _ => id

theorem quiet_consultCache (name : Name) (type : RecordType) :
    regime.Quiet rest (Session.consultCache name type) :=
  quiet_of_keeps fun _ => regime.consult name type

theorem quiet_onDelegations {α : Type} (op : Duration → Op Delegations α) :
    regime.Quiet rest (Session.onResolver (Resolver.onDelegations op)) :=
  quiet_of_keeps fun session => regime.elsewhere _ session.resolver.rotation

theorem quiet_configuredRota :
    regime.Quiet rest (Session.withResolver Resolver.configuredRota) := by
  refine quiet_of_keeps fun session holds => ?_
  rw [Session.withResolver_apply]
  cases rotates : session.resolver.settings.rotate with
  | false => simpa [Resolver.configuredRota, rotates] using holds
  | true =>
    have next := regime.elsewhere session.resolver.delegations (session.resolver.rotation + 1) holds
    simpa [Resolver.configuredRota, rotates, At] using next

theorem quiet_serversAround (name : Name) : regime.Quiet rest (Session.serversAround name) := by
  unfold Session.serversAround
  refine quiet_settings.bind fun settings => (quiet_onDelegations _).bind fun known => ?_
  split
  · exact .ret fun _ => id
  · exact quiet_configuredRota.bind fun _ => .ret fun _ => id

theorem quiet_learn {response : Message} (ends : regime.Ends (.ok response)) :
    regime.Quiet rest (Session.learn response) :=
  quiet_of_keeps fun _ => regime.learn ends

/-! ### Inquiries -/

theorem leads_askServer (inquiry : Inquiry) (server : Endpoint) :
    regime.Leads rest (inquiry.askServer server) Asked.queriesOf := by
  refine (regime.ask rest server inquiry.name inquiry.type).bind fun asking => .ret ?_
  cases asking <;> exact fun _ => id

theorem leads_askNext (inquiry : Inquiry) :
    regime.Leads rest inquiry.askNext Asked.queriesOf := by
  unfold Inquiry.askNext
  split
  · exact leads_askServer _ _
  · exact .ret fun _ => id

theorem leads_retry (inquiry : Inquiry) (failure : Failure) :
    regime.Leads rest (inquiry.retry failure) Asked.queriesOf :=
  leads_askNext _

theorem leads_ofInquiry {op : Op Session (Except Failure Asked)}
    (leads : regime.Leads rest op Asked.queriesOf) :
    regime.Leads rest (do return Turn.ofInquiry (← op)) Turn.queries := by
  refine leads.bind fun result => .ret ?_
  cases result <;> exact fun _ => id

theorem leads_evaluate (inquiry : Inquiry) {result : Settlement} (ends : regime.Ends result) :
    regime.Leads rest (inquiry.evaluate result) Evaluation.queries := by
  unfold Inquiry.evaluate
  split
  · rename_i response used
    exact (quiet_learn (Inquiry.eq_of_usable used ▸ ends)).bind fun _ => .ret fun _ => id
  split
  · refine (leads_retry _ _).bind fun retried => ?_
    cases retried <;> exact .ret fun _ => id
  · exact .ret fun _ => id

/-! ### Passes -/

theorem leads_begin (name : Name) (type : RecordType) (depth : Nat) :
    regime.Leads rest (Pass.begin name type depth) Turn.queries := by
  unfold Pass.begin
  refine (quiet_consultCache _ _).bind fun known => ?_
  cases known with
  | hit result => exact .ret fun _ => id
  | miss name => exact (quiet_serversAround _).bind fun _ => leads_ofInquiry (leads_askNext _)

theorem leads_gatherTypes (server : Name) (depth : Nat) (glue : List RecordSet)
    (types : List RecordType) :
    regime.Leads rest (Pass.gatherTypes server depth glue types) Pass.Gathered.queries := by
  induction types generalizing glue with
  | nil => exact .ret fun _ => id
  | cons type types ih =>
    unfold Pass.gatherTypes
    refine (leads_begin _ _ _).bind fun turn => ?_
    cases turn with
    | asked asked => exact .ret fun _ => id
    | finished result =>
      dsimp only
      cases Pass.takeIn? server glue result with
      | some glue => exact ih glue
      | none => exact .ret fun _ => id

theorem leads_gatherServers (types : List RecordType) (depth : Nat) (glue : List RecordSet)
    (servers : List Name) :
    regime.Leads rest (Pass.gatherServers types depth glue servers) fun found =>
      found.1.queries := by
  induction servers generalizing glue with
  | nil => exact .ret fun _ => id
  | cons server servers ih =>
    unfold Pass.gatherServers
    refine (leads_gatherTypes _ _ _ _).bind fun gathered => ?_
    cases gathered with
    | complete glue => exact ih glue
    | waiting asked glue server types => exact .ret fun _ => id

theorem leads_redirect (inquiry : Inquiry) (referral : Referral) (glue : List RecordSet) :
    regime.Leads rest (Pass.redirect inquiry referral glue) Turn.queries := by
  unfold Pass.redirect
  refine quiet_settings.bind fun settings => (quiet_onDelegations _).bind fun _ => ?_
  dsimp only
  split
  · exact .ret fun _ => id
  · exact leads_ofInquiry (leads_askNext _)

/-- From gathering the addresses of servers a `Pass` goes on with a query for one of them, which it
has begun already, or with a query of its own. -/
theorem triple_takeUp (inquiry : Inquiry) (referral : Referral)
    (gathered : Pass.Gathered × List Name) :
    Op.Triple (regime.At (gathered.1.queries ++ rest)) (Pass.takeUp inquiry referral gathered)
      (fun taken => regime.At (taken.1.queries ++ rest)) (regime.At rest) := by
  obtain ⟨glue | ⟨asked, glue, server, types⟩, servers⟩ := gathered
  · exact (leads_redirect inquiry referral glue).bind fun _ => .ret fun _ => id
  · exact .ret fun _ => id

theorem leads_regather (gathering : Gathering) (result : Except Failure Answer) :
    regime.Leads rest (Pass.regather gathering result) fun found => found.1.queries := by
  unfold Pass.regather
  cases Pass.takeIn? gathering.server gathering.glue result
  case' some glue => refine (leads_gatherTypes _ _ _ _).bind fun gathered => ?_
  case' none =>
    have stops : regime.Leads rest (pure (.complete gathering.glue)) Pass.Gathered.queries :=
      .ret fun _ => id
    refine stops.bind fun gathered => ?_
  all_goals
    cases gathered with
    | complete glue => exact quiet_settings.bind fun _ => leads_gatherServers _ _ _ _
    | waiting asked glue server types => exact .ret fun _ => id

theorem triple_unwind (turn : Turn) (outer : List Gathering) :
    Op.Triple (regime.At (turn.queries ++ rest)) (Pass.unwind turn outer)
      (fun progress => regime.At (progress.queries ++ rest)) (regime.At rest) := by
  induction outer generalizing turn with
  | nil => cases turn <;> exact .ret fun _ => id
  | cons gathering outer ih =>
    cases turn with
    | asked asked => exact .ret fun _ => id
    | finished result =>
      unfold Pass.unwind
      refine (leads_regather gathering result).bind fun gathered => ?_
      refine (triple_takeUp _ _ gathered).bind fun taken => ?_
      obtain ⟨turn, inner⟩ := taken
      cases turn with
      | asked asked => exact .ret fun _ => id
      | finished result => exact ih (.finished result)

/-- A `Pass` that starts keeps the `regime`, with the query that it waits for in addition. -/
theorem leads_start (name : Name) (type : RecordType) :
    regime.Leads rest (Pass.start name type) Progress.queries :=
  (leads_begin name type 0).bind fun turn => triple_unwind turn []

theorem leads_refer (inquiry : Inquiry) (referral : Referral) :
    regime.Leads rest (Pass.refer inquiry referral) fun taken => taken.1.queries := by
  unfold Pass.refer
  refine quiet_settings.bind fun settings => ?_
  exact (leads_gatherServers _ _ _ _).bind fun gathered => triple_takeUp _ _ gathered

theorem leads_chase (asked : Asked) (target : Name) :
    regime.Leads rest (Pass.chase asked target) Turn.queries := by
  unfold Pass.chase
  refine quiet_get.bind fun session => ?_
  split
  · exact .ret fun _ => id
  have marks : regime.Quiet rest (modify fun session => { session with
      allowance := { session.allowance with chased := true } }) := quiet_of_keeps fun _ => id
  refine marks.bind fun _ => (quiet_consultCache _ _).bind fun known => ?_
  cases known with
  | hit result => exact .ret fun _ => id
  | miss target => exact leads_ofInquiry (leads_askServer _ _)

theorem leads_react (asked : Asked) (response : Message) :
    regime.Leads rest (Pass.react asked response) fun taken => taken.1.queries := by
  unfold Pass.react
  dsimp only
  split
  case h_4 => exact (leads_chase _ _).bind fun _ => .ret fun _ => id
  case h_5 =>
    split
    · exact leads_refer _ _
    · refine (leads_retry _ _).bind fun retried => ?_
      cases retried <;> exact .ret fun _ => id
  all_goals exact .ret fun _ => id

theorem leads_conclude (asked : Asked) {result : Settlement} (ends : regime.Ends result) :
    regime.Leads rest (Pass.conclude asked result) fun taken => taken.1.queries := by
  unfold Pass.conclude
  refine (leads_evaluate _ ends).bind fun evaluation => ?_
  cases evaluation with
  | response response => exact leads_react _ _
  | again next => exact .ret fun _ => id
  | failed failure => exact .ret fun _ => id

theorem triple_happen (query : Query) (event : Event) :
    Op.Triple (regime.At (query :: rest))
      (Session.withResolver (Resolver.onRegistry (query.happen event)))
      (fun happened session => Aftermath regime.Holds regime.Ends rest happened session.resolver)
      (regime.At (query :: rest)) :=
  fun _ => regime.happen query event

/-- What an `event` of its `query` does to a `pass` keeps the `regime`. Even where it is refused, it
has only been given up that the query is waited for. -/
theorem triple_resume (pass : Pass) (event : Event) :
    Op.Triple (regime.At (pass.asked.query :: rest)) (pass.resume event)
      (fun progress => regime.At (progress.queries ++ rest))
      (regime.At (pass.asked.query :: rest)) := by
  have weaker (session : Session) (holds : regime.At rest session) :
      regime.At (pass.asked.query :: rest) session :=
    regime.mono (List.subset_cons_self _ _) holds
  unfold Pass.resume
  refine (triple_happen pass.asked.query event).bind fun ⟨settled, query⟩ => ?_
  cases settled with
  | none => exact .ret fun _ => id
  | some result =>
    intro session ⟨holds, ends⟩
    refine (Op.Triple.bind (leads_conclude pass.asked ends) fun taken => ?_).conseq (fun _ => id)
      (fun _ _ => id) weaker session holds
    exact triple_unwind taken.1 (taken.2 ++ pass.outer)

end Regime

end NameResolution
