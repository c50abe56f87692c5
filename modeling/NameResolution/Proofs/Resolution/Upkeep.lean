import NameResolution.Proofs.Resolution.Evidence
import NameResolution.Proofs.Resolution.Spending

/-!
# Sessions with a tidy cache

Whatever a call does, it leaves the cache tidy. Along with this, the laws here say what an inquiry
puts to servers.

* `Session.Ensures`: an operation leaves a tidy cache behind, and what it gives has some property.
* `Asked.Puts`: a question for a name and a type is on its way to a server.
* `Inquiry.ensures_evaluate`: an inquiry that goes on with another server puts the same question.
-/

namespace NameResolution

namespace Session

/-- The `cache` is `Tidy`. -/
def Tidy (session : Session) : Prop := session.resolver.cache.Tidy

/-- An operation that starts with a `Tidy` cache leaves it tidy, and what it gives has the
property. -/
abbrev Ensures {α : Type} (op : Op Session α) (P : α → Prop) : Prop := Op.Ensures Tidy op P

/-- Most operations leave the `cache` as it is. -/
theorem ensures_of_same {α : Type} {op : Op Session α}
    (same : ∀ session, (op session).2.resolver.cache = session.resolver.cache) :
    Ensures op fun _ => True := by
  intro before tidy value after ran
  have kept := same before
  rw [ran] at kept
  exact ⟨by unfold Tidy; rwa [kept], trivial⟩

theorem ensures_settings : Ensures settings fun _ => True := ensures_of_same fun _ => rfl

theorem ensures_onRegistry {α : Type} (op : StateM Registry α) :
    Ensures (withResolver (Resolver.onRegistry op)) fun _ => True := ensures_of_same fun _ => rfl

theorem ensures_onDelegations {α : Type} (op : Duration → Op Delegations α) :
    Ensures (onResolver (Resolver.onDelegations op)) fun _ => True := ensures_of_same fun _ => rfl

theorem ensures_configuredRota : Ensures (withResolver Resolver.configuredRota) fun _ => True := by
  refine ensures_of_same fun session => ?_
  rw [withResolver_apply]
  cases rotates : session.resolver.settings.rotate <;> simp [Resolver.configuredRota, rotates]

theorem ensures_takeQuery : Ensures takeQuery fun _ => True := by
  refine ensures_of_same fun session => ?_
  obtain refused | ⟨budget, taken, -⟩ := takeQuery_spec session
  · rw [refused]
  · rw [taken]

theorem ensures_send (query : Query) : Ensures (send query) fun _ => True := by
  refine ensures_of_same fun session => ?_
  simp only [send, Op.bind_apply, Op.get_apply]
  generalize (Query.begin session.resolver.hook).runOn query = begun
  obtain ⟨_ | octets, begun⟩ := begun <;> rfl

/-- The `query` is one that asking a server has given. -/
def Sent (query : Query) (name : Name) (type : RecordType) : Prop :=
  ∃ server before after, ask server name type before = (.ok (.ok query), after)

theorem ensures_ask (server : Endpoint) (name : Name) (type : RecordType) :
    Ensures (ask server name type) (WhenOk (Sent · name type)) := by
  have keeps : Ensures (ask server name type) fun _ => True := by
    refine .bind (ensures_of_same fun _ => rfl) fun session _ => ?_
    split
    · exact .pure trivial
    refine ensures_takeQuery.bind fun taken _ => ?_
    split
    · refine (ensures_onRegistry _).bind fun registered _ => ?_
      cases registered with
      | ok query => exact (ensures_send query).bind fun _ _ => .pure trivial
      | error failure => exact .pure trivial
    · exact .pure trivial
  refine keeps.and_ran.imp fun asking asked query same => ?_
  obtain ⟨-, before, after, -, ran⟩ := asked
  exact ⟨server, before, after, same ▸ ran⟩

theorem consultCache_eq_ok {name : Name} {type : RecordType} {before after : Session}
    {known : Cached} (ran : consultCache name type before = (.ok known, after)) :
    ∃ cache, followCached type before.resolver.now cachedAliases name before.resolver.cache =
      (.ok known, cache) :=
  ⟨_, Prod.ext (Prod.mk.inj ran).1 rfl⟩

theorem ensures_consultCache (name : Name) (type : RecordType) :
    Ensures (consultCache name type) fun _ => True := by
  have keeps : Op.Keeps Tidy (consultCache name type) fun _ => True :=
    .of_state fun session tidy =>
      (keeps_followCached type session.resolver.now cachedAliases name).after tidy
  exact keeps.ensures

theorem ensures_serversAround (name : Name) : Ensures (serversAround name) fun _ => True := by
  refine ensures_settings.bind fun settings _ => (ensures_onDelegations _).bind fun known _ => ?_
  split
  · exact .pure trivial
  · exact ensures_configuredRota.bind fun _ _ => .pure trivial

theorem allowance_learn (response : Message) (session : Session) :
    (learn response session).2.allowance = session.allowance := by
  rw [learn, Op.bind_apply]
  split
  · rename_i ran
    exact congrArg (·.2.allowance) ran.symm
  · rename_i ran
    exact congrArg (·.2.allowance) ran.symm

/-- Learning a `response` leaves the cache `Tidy`, even where it is refused. -/
theorem keeps_learn (response : Message) : Op.Keeps Tidy (learn response) fun _ => True := by
  have keeps : Op.Keeps Tidy (onResolver (Resolver.onCache (Cache.addMessage response)))
      fun _ => True := .of_state fun session tidy =>
    (Cache.keeps_addMessage response session.resolver.now).after tidy
  exact keeps.bind fun _ _ => .pure trivial

end Session

/-! ## Inquiries -/

/-- The question for a `name` and a `type` has been put to a server. -/
structure Asked.Puts (asked : Asked) (name : Name) (type : RecordType) : Prop where
  sent : Session.Sent asked.query name type
  name : asked.inquiry.name = name
  type : asked.inquiry.type = type

namespace Inquiry

open Session (Ensures)

theorem ensures_askServer (inquiry : Inquiry) (server : Endpoint) :
    Ensures (inquiry.askServer server) (WhenOk (Asked.Puts · inquiry.name inquiry.type)) := by
  refine (Session.ensures_ask _ _ _).bind fun asking sent => .pure ?_
  cases asking with
  | error failure => exact whenOk_error
  | ok query => exact whenOk_ok.mpr ⟨sent query rfl, rfl, rfl⟩

theorem ensures_askNext (inquiry : Inquiry) :
    Ensures inquiry.askNext (WhenOk (Asked.Puts · inquiry.name inquiry.type)) := by
  unfold askNext
  split
  · exact ensures_askServer _ _
  · exact .pure whenOk_error

theorem ensures_retry (inquiry : Inquiry) (failure : Failure) :
    Ensures (inquiry.retry failure) (WhenOk (Asked.Puts · inquiry.name inquiry.type)) :=
  ensures_askNext _

/-- What the end of a query means: there is a `response` to go by, which has been learned, or the
same question is put to the next server, or the `inquiry` has failed. -/
inductive Evaluated (inquiry : Inquiry) (result : Settlement) (before after : Session) :
    Evaluation → Prop
  | response {response : Message} (used : usable result = .ok response)
    (learned : after = (Session.learn response before).2) :
    Evaluated inquiry result before after (.response response)
  | again {asked : Asked} (puts : asked.Puts inquiry.name inquiry.type) :
    Evaluated inquiry result before after (.again asked)
  | failed (failure : Failure) : Evaluated inquiry result before after (.failed failure)

theorem ensures_evaluate {inquiry : Inquiry} {result : Settlement} {before after : Session}
    {evaluation : Evaluation} (tidy : before.Tidy)
    (ran : inquiry.evaluate result before = (.ok evaluation, after)) :
    after.Tidy ∧ inquiry.Evaluated result before after evaluation := by
  unfold evaluate at ran
  cases used : usable result with
  | ok response =>
    rw [used] at ran
    obtain ⟨_, _, learned, rest⟩ := Op.bind_eq_ok.mp ran
    cases rest
    exact ⟨((Session.keeps_learn response).ensures before tidy _ _ learned).1,
      .response used (by rw [learned])⟩
  | error failure =>
    rw [used] at ran
    dsimp only at ran
    split at ran
    · obtain ⟨retried, _, asks, rest⟩ := Op.bind_eq_ok.mp ran
      obtain ⟨kept, puts⟩ := ensures_retry inquiry failure before tidy _ _ asks
      cases retried with
      | ok asked =>
        cases rest
        exact ⟨kept, .again (puts asked rfl)⟩
      | error failure =>
        cases rest
        exact ⟨kept, .failed failure⟩
    · cases ran
      exact ⟨tidy, .failed failure⟩

end Inquiry

end NameResolution
