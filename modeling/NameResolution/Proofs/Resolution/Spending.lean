import NameResolution.Proofs.Operations
import NameResolution.Resolution.Call

/-!
# What calls spend

* `Session.Paid`: between two states of a session every query that was sent was taken out of the
  budget. `Session.ask_pays`: asking a server does that, and nothing else sends anything.
* `Call.Run`: a call in the course of any run. Between any two of its steps the resolver can become
  any other one: other calls go on, messages arrive, caches change.
* `Call.Run.sent_le_used`: a call never sends more queries than it has counted, and never counts
  more than its budget.
-/

namespace NameResolution

theorem Budget.take?_eq_some {budget next : Budget} (taken : budget.take? = some next) :
    next.total = budget.total ∧ next.remaining + 1 = budget.remaining := by
  unfold take? at taken
  split at taken
  · simp at taken
  · rename_i remaining left
    simp only [Option.some.injEq] at taken
    exact ⟨taken ▸ rfl, taken ▸ left.symm⟩

/-! ## Operations that send nothing -/

/-- The operation `op` puts nothing into the outbox. -/
def Resolver.Quiet {ρ : Type} (op : Resolver → ρ × Resolver) : Prop :=
  ∀ resolver, (op resolver).2.outbox = resolver.outbox

namespace Resolver

theorem quiet_onRegistry {α : Type} (op : StateM Registry α) : Quiet (onRegistry op) :=
  fun _ => rfl

theorem quiet_onCache {α : Type} (op : Duration → Op Cache α) : Quiet (onCache op) := fun _ => rfl

theorem quiet_onDelegations {α : Type} (op : Duration → Op Delegations α) :
    Quiet (onDelegations op) := fun _ => rfl

theorem quiet_configuredRota : Quiet configuredRota := by
  intro resolver
  cases rotates : resolver.settings.rotate <;> simp [configuredRota, rotates]

end Resolver

/-- What giving up passes keeps is kept when a `race` is given up. -/
theorem Race.holds_drop {Holds : Resolver → Prop}
    (keeps : ∀ (pass : Pass) resolver, Holds resolver → Holds (pass.drop resolver).2) (race : Race)
    {resolver : Resolver} (holds : Holds resolver) : Holds (race.drop resolver).2 := by
  have each (runs : List (RecordType × Run)) {resolver : Resolver} (holds : Holds resolver) :
      Holds ((runs.forM fun run => run.2.drop : StateM Resolver Unit) resolver).2 := by
    induction runs generalizing resolver with
    | nil => exact holds
    | cons run runs ih =>
      obtain ⟨type, run⟩ := run
      refine ih ?_
      cases run with
      | waiting pass => exact keeps pass resolver holds
      | unstarted => exact holds
      | ended result => exact holds
  exact each race.runs holds

theorem Race.quiet_drop (race : Race) : Resolver.Quiet race.drop := by
  intro resolver
  have keeps (pass : Pass) (other : Resolver) (same : other.outbox = resolver.outbox) :
      (pass.drop other).2.outbox = resolver.outbox := same
  exact race.holds_drop keeps rfl

/-! ## Sessions -/

namespace Session

/-- Every query that was sent between two states of a `Session` was taken out of the budget. -/
structure Paid (before after : Session) : Prop where
  total : after.allowance.budget.total = before.allowance.budget.total
  sent : ∃ sent, after.resolver.outbox = before.resolver.outbox ++ sent ∧
    sent.length + after.allowance.budget.remaining ≤ before.allowance.budget.remaining

instance : Std.Refl Paid := ⟨fun _ => ⟨rfl, [], by simp, by simp⟩⟩

instance : Trans Paid Paid Paid where
  trans first second := by
    obtain ⟨total, sent, outbox, paid⟩ := first
    obtain ⟨total', sent', outbox', paid'⟩ := second
    refine ⟨total'.trans total, sent ++ sent', ?_, ?_⟩
    · rw [outbox', outbox, List.append_assoc]
    · rw [List.length_append]
      omega

/-- The operation `op` takes every query that it sends out of the budget: what it does is `Paid`. -/
abbrev Pays {α : Type} (op : Op Session α) : Prop := Op.Obeys Paid op

theorem Paid.of_same {before after : Session}
    (outbox : after.resolver.outbox = before.resolver.outbox)
    (budget : after.allowance.budget = before.allowance.budget) : Paid before after :=
  ⟨by rw [budget], [], by simp [outbox], by simp [budget]⟩

theorem pays_onResolver {α : Type} {op : Op Resolver α} (quiet : Resolver.Quiet op) :
    Pays (onResolver op) :=
  fun session => .of_same (quiet session.resolver) rfl

theorem pays_withResolver {α : Type} {op : StateM Resolver α} (quiet : Resolver.Quiet op) :
    Pays (withResolver op) :=
  fun session => .of_same (quiet session.resolver) rfl

@[simp] theorem withResolver_apply {α : Type} (op : StateM Resolver α) (session : Session) :
    withResolver op session =
      (.ok (op session.resolver).1, { session with resolver := (op session.resolver).2 }) := rfl

theorem pays_settings : Pays settings := .bind .get fun _ => .pure _

/-- Sending puts at most one `query` into the `outbox`. -/
theorem send_spec (query : Query) (session : Session) :
    (send query session).2.allowance = session.allowance ∧
      ∃ sent, (send query session).2.resolver.outbox = session.resolver.outbox ++ sent ∧
        sent.length ≤ 1 := by
  simp only [send, Op.bind_apply, Op.get_apply]
  generalize (Query.begin session.resolver.hook).runOn query = begun
  obtain ⟨_ | octets, begun⟩ := begun
  · exact ⟨rfl, [], (List.append_nil _).symm, Nat.zero_le _⟩
  · exact ⟨rfl, [_], rfl, Nat.le_refl _⟩

/-- A query is only taken out of a `budget` that has one left. -/
theorem takeQuery_spec (session : Session) :
    takeQuery session = (.ok false, session) ∨ ∃ budget : Budget,
      takeQuery session =
        (.ok true, { session with allowance := { session.allowance with budget := budget } }) ∧
      budget.total = session.allowance.budget.total ∧
      budget.remaining + 1 = session.allowance.budget.remaining := by
  simp only [takeQuery, Op.bind_apply, Op.get_apply]
  cases taken : session.allowance.budget.take? with
  | none => exact .inl rfl
  | some budget => exact .inr ⟨budget, rfl, Budget.take?_eq_some taken⟩

/-- Asking a `server` sends a query only after taking one out of the budget. -/
theorem ask_pays (server : Endpoint) (name : Name) (type : RecordType) :
    Pays (ask server name type) := by
  intro session
  simp only [ask, Op.bind_apply, Op.get_apply]
  split
  · exact Std.Refl.refl session
  rcases takeQuery_spec session with refused | ⟨budget, taken, total, one⟩
  · rw [Op.bind_apply, refused]
    exact Std.Refl.refl session
  · rw [Op.bind_apply, taken]
    simp only [if_true, Op.bind_apply, withResolver_apply]
    have quiet := Resolver.quiet_onRegistry (Query.register server (.internet name type))
      session.resolver
    generalize Resolver.onRegistry (Query.register server (.internet name type)) session.resolver =
      registered at quiet ⊢
    obtain ⟨failure | query, resolver⟩ := registered
    · -- A registration that is refused has cost a query that is never sent.
      exact ⟨total, [], by simpa using quiet, by simp; omega⟩
    · obtain ⟨kept, sent, outbox, few⟩ := send_spec query
        ⟨resolver, { session.allowance with budget := budget }⟩
      have same : ∀ next : Session, next = (send query
          ⟨resolver, { session.allowance with budget := budget }⟩).2 → Paid session next := by
        rintro _ rfl
        refine ⟨by rw [kept, ← total], sent, by rw [outbox, quiet], ?_⟩
        rw [kept]
        show _ + budget.remaining ≤ _
        omega
      simp only [Op.bind_apply]
      rcases sending : send query ⟨resolver, { session.allowance with budget := budget }⟩ with
        ⟨misuse | query, next⟩
      · exact same _ (by rw [sending])
      · exact same _ (by rw [sending]; rfl)

theorem pays_consultCache (name : Name) (type : RecordType) : Pays (consultCache name type) :=
  pays_onResolver (Resolver.quiet_onCache _)

theorem pays_serversAround (name : Name) : Pays (serversAround name) := by
  unfold serversAround
  refine .bind pays_settings fun settings => ?_
  refine .bind (pays_onResolver (Resolver.quiet_onDelegations _)) fun known => ?_
  rcases known with _ | ⟨zone, servers⟩
  · exact .bind (pays_withResolver Resolver.quiet_configuredRota) fun _ => .pure _
  · exact .pure _

theorem pays_learn (response : Message) : Pays (learn response) :=
  .bind (pays_onResolver (Resolver.quiet_onCache _)) fun _ => .pure _

end Session

open Session (Pays)

/-! ## Inquiries -/

namespace Inquiry

theorem pays_askServer (inquiry : Inquiry) (server : Endpoint) :
    Pays (inquiry.askServer server) :=
  .bind (Session.ask_pays _ _ _) fun _ => .pure _

theorem pays_askNext (inquiry : Inquiry) : Pays inquiry.askNext := by
  unfold askNext
  split
  · exact pays_askServer _ _
  · exact .pure _

theorem pays_retry (inquiry : Inquiry) (failure : Failure) : Pays (inquiry.retry failure) :=
  pays_askNext _

theorem pays_evaluate (inquiry : Inquiry) (result : Settlement) :
    Pays (inquiry.evaluate result) := by
  unfold evaluate
  split
  · exact .bind (Session.pays_learn _) fun _ => .pure _
  split
  · refine .bind (pays_retry _ _) fun retried => ?_
    cases retried with
    | ok asked => exact .pure _
    | error failure => exact .pure _
  · exact .pure _

end Inquiry

/-! ## Passes -/

namespace Pass

theorem pays_begin (name : Name) (type : RecordType) (depth : Nat) :
    Pays (begin name type depth) := by
  unfold begin
  refine .bind (Session.pays_consultCache _ _) fun known => ?_
  cases known with
  | hit result => exact .pure _
  | miss name =>
    refine .bind (Session.pays_serversAround _) fun around => ?_
    exact .bind (Inquiry.pays_askNext _) fun _ => .pure _

theorem pays_gatherTypes (server : Name) (depth : Nat) (glue : List RecordSet)
    (types : List RecordType) : Pays (gatherTypes server depth glue types) := by
  induction types generalizing glue with
  | nil => exact .pure _
  | cons type types ih =>
    unfold gatherTypes
    refine .bind (pays_begin _ _ _) fun turn => ?_
    cases turn with
    | asked asked => exact .pure _
    | finished result =>
      dsimp only
      cases takeIn? server glue result with
      | some glue => exact ih glue
      | none => exact .pure _

theorem pays_gatherServers (types : List RecordType) (depth : Nat) (glue : List RecordSet)
    (servers : List Name) : Pays (gatherServers types depth glue servers) := by
  induction servers generalizing glue with
  | nil => exact .pure _
  | cons server servers ih =>
    unfold gatherServers
    refine .bind (pays_gatherTypes _ _ _ _) fun gathered => ?_
    cases gathered with
    | complete glue => exact ih glue
    | waiting asked glue server types => exact .pure _

theorem pays_redirect (inquiry : Inquiry) (referral : Referral) (glue : List RecordSet) :
    Pays (redirect inquiry referral glue) := by
  unfold redirect
  refine .bind Session.pays_settings fun settings => ?_
  refine .bind (Session.pays_onResolver (Resolver.quiet_onDelegations _)) fun _ => ?_
  dsimp only
  split
  · exact .pure _
  · exact .bind (Inquiry.pays_askNext _) fun _ => .pure _

theorem pays_takeUp (inquiry : Inquiry) (referral : Referral)
    (gathered : Gathered × List Name) : Pays (takeUp inquiry referral gathered) := by
  obtain ⟨glue | ⟨asked, glue, server, types⟩, servers⟩ := gathered
  · exact .bind (pays_redirect _ _ _) fun _ => .pure _
  · exact .pure _

theorem pays_regather (gathering : Gathering) (result : Except Failure Answer) :
    Pays (regather gathering result) := by
  unfold regather
  cases takeIn? gathering.server gathering.glue result
  case' some glue => refine .bind (pays_gatherTypes _ _ _ _) fun gathered => ?_
  case' none => refine .bind (.pure _) fun gathered => ?_
  all_goals
    cases gathered with
    | complete glue => exact .bind Session.pays_settings fun _ => pays_gatherServers _ _ _ _
    | waiting asked glue server types => exact .pure _

theorem pays_unwind (turn : Turn) (outer : List Gathering) : Pays (unwind turn outer) := by
  induction outer generalizing turn with
  | nil => cases turn <;> exact .pure _
  | cons gathering outer ih =>
    cases turn with
    | asked asked => exact .pure _
    | finished result =>
      unfold unwind
      refine .bind (pays_regather _ _) fun gathered => ?_
      refine .bind (pays_takeUp _ _ _) fun ⟨turn, inner⟩ => ?_
      cases turn with
      | asked asked => exact .pure _
      | finished result => exact ih _

theorem pays_start (name : Name) (type : RecordType) : Pays (start name type) :=
  .bind (pays_begin _ _ _) fun _ => pays_unwind _ _

theorem pays_refer (inquiry : Inquiry) (referral : Referral) :
    Pays (refer inquiry referral) := by
  unfold refer
  refine .bind Session.pays_settings fun settings => ?_
  exact .bind (pays_gatherServers _ _ _ _) fun _ => pays_takeUp _ _ _

theorem pays_chase (asked : Asked) (target : Name) : Pays (chase asked target) := by
  unfold chase
  refine .bind .get fun session => ?_
  split
  · exact .pure _
  refine .bind (fun _ => .of_same rfl rfl) fun _ => ?_
  refine .bind (Session.pays_consultCache _ _) fun known => ?_
  cases known with
  | hit result => exact .pure _
  | miss target => exact .bind (Inquiry.pays_askServer _ _) fun _ => .pure _

theorem pays_react (asked : Asked) (response : Message) : Pays (react asked response) := by
  unfold react
  dsimp only
  split
  case h_4 => exact .bind (pays_chase _ _) fun _ => .pure _
  case h_5 =>
    split
    · exact pays_refer _ _
    · exact .bind (Inquiry.pays_retry _ _) fun _ => .pure _
  all_goals exact .pure _

theorem pays_conclude (asked : Asked) (result : Settlement) : Pays (conclude asked result) := by
  unfold conclude
  refine .bind (Inquiry.pays_evaluate _ _) fun evaluation => ?_
  cases evaluation with
  | response response => exact pays_react _ _
  | again next => exact .pure _
  | failed failure => exact .pure _

theorem pays_resume (pass : Pass) (event : Event) : Pays (pass.resume event) := by
  unfold resume
  refine .bind (Session.pays_withResolver (Resolver.quiet_onRegistry _)) fun happened => ?_
  obtain ⟨_ | result, query⟩ := happened
  · exact .pure _
  · exact .bind (pays_conclude _ _) fun _ => pays_unwind _ _

end Pass

/-! ## Races and host lookups -/

namespace Race

theorem pays_advanceRun {fits : RecordType → Run → Bool}
    {advance : RecordType → Run → Op Session Run} (each : ∀ type run, Pays (advance type run))
    (runs : List (RecordType × Run)) : Pays (advanceRun fits advance runs) := by
  induction runs with
  | nil => exact .pure _
  | cons run runs ih =>
    unfold advanceRun
    split
    · exact .bind (each _ _) fun _ => .pure _
    · exact .bind ih fun _ => .pure _

theorem pays_startRun (race : Race) (type : RecordType) : Pays (race.startRun type) := by
  refine .bind (pays_advanceRun (fun type run => ?_) race.runs) fun _ => .pure _
  cases run with
  | unstarted => exact .bind (Pass.pays_start _ _) fun _ => .pure _
  | waiting pass => exact .pure _
  | ended result => exact .pure _

theorem pays_resumeRun (race : Race) (serial : Nat) (event : Event) :
    Pays (race.resumeRun serial event) := by
  refine .bind (pays_advanceRun (fun type run => ?_) race.runs) fun _ => .pure _
  cases run with
  | waiting pass => exact .bind (Pass.pays_resume _ _) fun _ => .pure _
  | unstarted => exact .pure _
  | ended result => exact .pure _

end Race

namespace HostLookup

theorem pays_tryName (name : Name) (search : Option Search) : Pays (tryName name search) := by
  unfold tryName
  refine .bind .get fun session => ?_
  dsimp only
  split <;> exact .pure _

theorem pays_tryNext (relative : Name) (lastFailure : Option Failure) (suffixes : List Name) :
    Pays (tryNext relative lastFailure suffixes) := by
  induction suffixes generalizing lastFailure with
  | nil => exact .pure _
  | cons suffix suffixes ih =>
    unfold tryNext
    split
    · exact pays_tryName _ _
    · exact ih _

theorem pays_begin (host : String) : Pays (begin host) := by
  unfold begin
  split
  · exact .pure _
  split
  · exact .pure _
  refine .bind Session.pays_settings fun settings => ?_
  split
  · exact pays_tryName _ _
  · exact pays_tryNext _ _ _

theorem pays_settle (search : Option Search) (result : Except Failure FoundHosts) :
    Pays (settle search result) := by
  unfold settle
  split
  · split
    · exact .pure _
    · exact pays_tryNext _ _ _
  · exact .pure _

theorem pays_askAlias (lookup : HostLookup) (failure : Failure) :
    Pays (lookup.askAlias failure) := by
  intro session
  unfold askAlias
  by_cases left : leavesAliasOpen failure ∧ ¬session.allowance.aliasAsked
  · simp only [Op.bind_apply, Op.get_apply, if_pos left]
    exact .of_same rfl rfl
  · simp only [Op.bind_apply, Op.get_apply, if_neg left]
    exact pays_settle _ _ session

theorem pays_followAlias (lookup : HostLookup) (failure : Failure) :
    Pays (lookup.followAlias failure) := by
  unfold followAlias
  split
  · split
    · exact pays_settle _ _
    · exact .bind Session.pays_settings fun _ => .pure _
  · exact pays_settle _ _

theorem pays_conclude (lookup : HostLookup) : Pays lookup.conclude := by
  unfold conclude
  refine .bind (Session.pays_withResolver lookup.race.quiet_drop) fun _ => ?_
  split
  · split
    · exact pays_settle _ _
    · exact pays_askAlias _ _
  · exact pays_followAlias _ _
  · exact pays_settle _ _

end HostLookup

namespace Call

theorem pays_beginQuestion (name : Name) (type : RecordType) : Pays (beginQuestion name type) := by
  refine .bind (Session.pays_withResolver Resolver.quiet_configuredRota) fun rota => ?_
  exact .bind (Inquiry.pays_askNext _) fun _ => .pure _

theorem pays_resumeQuestion (asked : Asked) (event : Event) :
    Pays (resumeQuestion asked event) := by
  unfold resumeQuestion
  refine .bind (Session.pays_withResolver (Resolver.quiet_onRegistry _)) fun happened => ?_
  obtain ⟨_ | result, query⟩ := happened
  · exact .pure _
  refine .bind (Inquiry.pays_evaluate _ _) fun evaluation => ?_
  cases evaluation <;> exact .pure _

end Call

end NameResolution
