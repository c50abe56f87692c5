import NameResolution.Proofs.Cache.Glue
import NameResolution.Proofs.Cache.Reading
import NameResolution.Proofs.Resolution.Registrations

/-!
# Closed resolvers

Calls that are under way when a resolver is closed go on. They cannot ask anything any more, and
their queries are cancelled, but a response that was handed over before still counts.

* `Cache.StaysEmpty`: looking things up puts nothing into a cache.
* `Resolver.Shut`: a closed resolver registers and sends nothing. `Regime.shut`: calls keep this.
* `Resolver.Blank`: without a response to take up, it learns nothing. `Regime.blank`: calls keep
  this.
* `Conduct.idle`: without passes that wait for other passes, no delegations are remembered either.
-/

namespace NameResolution

/-! ## Caches that stay empty -/

namespace Cache

/-- A `Cache` that was empty before is empty after. -/
def StaysEmpty (before after : Cache) : Prop := before.isEmpty = true → after.isEmpty = true

instance : Std.Refl StaysEmpty := ⟨fun _ => id⟩

instance : Trans StaysEmpty StaysEmpty StaysEmpty := ⟨fun first second => second ∘ first⟩

/-- It is enough to see what becomes of a `Cache` without names. -/
theorem staysEmpty_of {α : Type} {op : StateM Cache α}
    (keeps : ∀ settings, (op (.empty settings)).2.isEmpty = true) : Moves StaysEmpty op := by
  rintro ⟨names, settings⟩ none
  obtain rfl : names = [] := List.isEmpty_iff.mp none
  exact keeps settings

theorem staysEmpty_reading (request : Request) : KeptByReading request StaysEmpty where
  live _ _ := staysEmpty_of fun _ => rfl
  collect _ := staysEmpty_of fun _ => rfl

theorem staysEmpty_evict (cache : Cache) : StaysEmpty cache cache.evict := by
  rcases cache with ⟨names, settings⟩
  cases names with
  | nil => intro _; simp [evict, isEmpty]
  | cons name names =>
    intro none
    cases none

theorem staysEmpty_lookup (name : Name) (type : RecordType) (least : Credibility)
    (now : Duration) : Op.Obeys StaysEmpty (lookup name type least now) := by
  intro cache
  cases absolute : name.absolute with
  | false =>
    rw [lookup_relative absolute]
    exact id
  | true =>
    rw [lookup_apply absolute]
    exact ((staysEmpty_reading _).lookupSuffixes _ _) ∘ staysEmpty_evict cache

end Cache

theorem Session.staysEmpty_followCached (type : RecordType) (now : Duration) (steps : Nat)
    (name : Name) : Op.Obeys Cache.StaysEmpty (followCached type now steps name) := by
  induction steps generalizing name with
  | zero => exact .pure _
  | succ steps ih =>
    unfold followCached
    refine .bind (Cache.staysEmpty_lookup _ _ _ _) fun found => ?_
    split
    · exact .pure _
    · exact ih _
    · exact .pure _

namespace Delegations

theorem staysEmpty_serversFor (name : Name) (port : UInt16) (now : Duration)
    (delegations : Delegations) (none : delegations.isEmpty = true) :
    (serversFor name port now delegations).2.isEmpty = true := by
  have lookups (name : Name) (type : RecordType) (least : Credibility) :
      Op.Keeps (fun cache : Cache => cache.isEmpty = true) (Cache.lookup name type least now)
        fun found => ∀ set ∈ found.sets, set.Tells fun _ => True :=
    Op.Keeps.imp (.of_state (Cache.staysEmpty_lookup name type least now))
      fun _ _ _ _ _ _ _ _ => trivial
  exact (keeps_serversFor_of lookups name port).after none

end Delegations

/-! ## Closed resolvers -/

/-- No response in the `registry` waits to be taken up by its query. -/
def Registry.Unanswered (registry : Registry) : Prop :=
  ∀ serial message, (serial, Reply.response message) ∉ registry.replies

namespace Resolver

/-- The `resolver` is closed and nothing is registered. What waits to be sent is what waited before,
or nothing. -/
structure Shut (outbox : List Datagram) (resolver : Resolver) : Prop where
  closed : resolver.closed = true
  outstanding : resolver.registry.outstanding = []
  outbox : resolver.outbox = outbox ∨ resolver.outbox = []

/-- The `resolver` is also without any response, and without any records. -/
structure Blank (outbox : List Datagram) (resolver : Resolver) : Prop extends
    Shut outbox resolver where
  unanswered : resolver.registry.Unanswered
  cache : resolver.cache.isEmpty = true

variable {outbox : List Datagram} {resolver : Resolver} {registry : Registry}

theorem Shut.onRegistry (shut : resolver.Shut outbox)
    (fewer : registry.outstanding ⊆ resolver.registry.outstanding) :
    Shut outbox { resolver with registry := registry } where
  closed := shut.closed
  outstanding := List.subset_nil.mp (shut.outstanding ▸ fewer)
  outbox := shut.outbox

theorem Blank.onRegistry (blank : resolver.Blank outbox)
    (fewer : registry.outstanding ⊆ resolver.registry.outstanding)
    (replies : registry.replies ⊆ resolver.registry.replies) :
    Blank outbox { resolver with registry := registry } where
  toShut := blank.toShut.onRegistry fewer
  unanswered serial message mem := blank.unanswered serial message (replies mem)
  cache := blank.cache

end Resolver

namespace Query

variable {query : Query} {registry : Registry}

theorem fewer_drop : (query.drop registry).2.outstanding ⊆ registry.outstanding ∧
    (query.drop registry).2.replies ⊆ registry.replies := by
  unfold drop
  split
  · exact ⟨List.Subset.refl _, List.Subset.refl _⟩
  · exact ⟨List.filter_subset_self _, List.filter_subset_self _⟩

end Query

/-! ## Sessions of closed resolvers -/

namespace Session

variable {session : Session}

/-- A closed `resolver` asks nothing. -/
theorem ask_of_closed (closed : session.resolver.closed = true) (server : Endpoint) (name : Name)
    (type : RecordType) : ask server name type session = (.ok (.error .cancelled), session) := by
  simp [ask, closed]

end Session

/-- Whatever a call does with a closed resolver, no query is registered or put into the `outbox`. -/
def Regime.shut (outbox : List Datagram) : Regime where
  Holds _ resolver := resolver.Shut outbox
  Ends _ := True
  mono _ shut := shut
  ask _ server name type session shut := by
    rw [Session.ask_of_closed shut.closed]
    exact shut
  consult _ _ shut := { shut with }
  learn {_ session response} _ shut := by
    obtain ⟨cache, learned⟩ := Session.resolver_learn response session
    rw [learned]
    exact { shut with }
  elsewhere _ _ shut := { shut with }
  happen query event shut := .of_happened event shut (fun _ => shut)
    (fun _ _ => ⟨shut.onRegistry (List.filter_subset_self _), trivial⟩)
  drop _ shut := shut.onRegistry Query.fewer_drop.1

/-- As `Regime.shut`. If no response waits to be taken up, then no query ends with one either, and
no records come into the cache. -/
def Regime.blank (outbox : List Datagram) : Regime where
  Holds _ resolver := resolver.Blank outbox
  Ends result := ∃ failure, result = .error failure
  mono _ blank := blank
  ask _ server name type session blank := by
    rw [Session.ask_of_closed blank.closed]
    exact blank
  consult {_ session} name type blank := { blank with
    cache := Session.staysEmpty_followCached type session.resolver.now Session.cachedAliases name
      session.resolver.cache blank.cache }
  learn ends := by
    obtain ⟨failure, same⟩ := ends
    cases same
  elsewhere _ _ blank := { blank with }
  happen query event blank := by
    refine .of_happened event blank (fun _ => blank) fun result handed => ⟨blank.onRegistry
      (List.filter_subset_self _) (List.filter_subset_self _), ?_⟩
    cases result with
    | ok message => exact absurd (handed message rfl) (blank.unanswered _ message)
    | error failure => exact ⟨failure, rfl⟩
  drop _ blank := blank.onRegistry Query.fewer_drop.1 Query.fewer_drop.2

/-! ## Passes of closed resolvers -/

namespace Session

variable {outbox : List Datagram}

/-- The resolver is in the state of `Regime.blank`, and no delegations are known. -/
def Idle (outbox : List Datagram) (session : Session) : Prop :=
  session.resolver.Blank outbox ∧ session.resolver.delegations.isEmpty = true

/-- The operation leaves an idle `Session` idle, and its value has the property. -/
abbrev Idles {α : Type} (outbox : List Datagram) (op : Op Session α) (P : α → Prop) : Prop :=
  Op.Keeps (Idle outbox) op P

theorem idles_consultCache (name : Name) (type : RecordType) :
    Idles outbox (consultCache name type) fun _ => True :=
  .of_state fun session idle =>
    have blank : (Regime.blank outbox).Holds [] session.resolver := idle.1
    ⟨(Regime.blank outbox).consult name type blank, idle.2⟩

theorem idles_configuredRota :
    Idles outbox (withResolver Resolver.configuredRota) fun _ => True := by
  refine .of_state fun session idle => ?_
  rw [withResolver_apply]
  cases rotates : session.resolver.settings.rotate with
  | false => simpa [Resolver.configuredRota, rotates] using idle
  | true =>
    have next : Idle outbox { session with resolver := { session.resolver with
        rotation := session.resolver.rotation + 1 } } := ⟨{ idle.1 with }, idle.2⟩
    simpa [Resolver.configuredRota, rotates] using next

theorem idles_serversAround (name : Name) :
    Idles outbox (serversAround name) fun _ => True := by
  have reads (port : UInt16) : Idles outbox
      (onResolver (Resolver.onDelegations (Delegations.serversFor name port))) fun _ => True :=
    .of_state fun _ idle => ⟨{ idle.1 with },
      Delegations.staysEmpty_serversFor name port _ _ idle.2⟩
  have configured : Idles outbox settings fun _ => True := .of_state fun _ => id
  refine configured.bind fun settings _ => (reads _).bind fun known _ => ?_
  split
  · exact .pure trivial
  · exact idles_configuredRota.bind fun _ _ => .pure trivial

end Session

open Session (Idle Idles)

section

variable {outbox : List Datagram}

theorem Inquiry.idles_askNext (inquiry : Inquiry) :
    Idles outbox inquiry.askNext fun result => ∃ failure, result = .error failure := by
  unfold askNext
  split
  · rename_i server rota _
    intro session idle
    rw [askServer, Op.bind_apply, Session.ask_of_closed idle.1.closed]
    exact ⟨idle, _, rfl⟩
  · exact .pure ⟨_, rfl⟩

/-- An `inquiry` whose query has failed fails. -/
theorem Inquiry.idles_evaluate (inquiry : Inquiry) (failure : Failure) :
    Idles outbox (inquiry.evaluate (.error failure)) fun evaluation =>
      ∃ other, evaluation = .failed other := by
  unfold evaluate
  simp only [usable]
  split
  · refine Op.Keeps.bind (idles_askNext _) ?_
    rintro _ ⟨other, rfl⟩
    exact .pure ⟨other, rfl⟩
  · exact .pure ⟨failure, rfl⟩

namespace Pass

theorem idles_begin (name : Name) (type : RecordType) (depth : Nat) :
    Idles outbox (begin name type depth) fun turn => ∃ result, turn = .finished result := by
  refine (Session.idles_consultCache _ _).bind fun known _ => ?_
  cases known with
  | hit result => exact .pure ⟨result, rfl⟩
  | miss name =>
    refine (Session.idles_serversAround _).bind fun ⟨zone, rota⟩ _ => ?_
    refine Op.Keeps.bind (Inquiry.idles_askNext _) ?_
    rintro _ ⟨failure, rfl⟩
    exact .pure ⟨_, rfl⟩

/-- A pass that starts in a session that is `Idle` ends at once. -/
theorem idles_start (name : Name) (type : RecordType) :
    Idles outbox (start name type) fun progress => progress.passes = [] := by
  refine (idles_begin name type 0).bind ?_
  rintro _ ⟨result, rfl⟩
  exact .pure rfl

/-- What an `event` of a `query` does in an idle `Session`: the query is still waited for, or it has
failed. -/
theorem idles_happen (query : Query) (event : Event) :
    Idles outbox (Session.withResolver (Resolver.onRegistry (query.happen event))) fun happened =>
      happened.1 = none ∨ ∃ failure, happened.1 = some (.error failure) := by
  intro session idle
  have blank : (Regime.blank outbox).Holds [query] session.resolver := idle.1
  have after := (Regime.blank outbox).happen query event blank
  change Aftermath _ _ [] (query.happen event session.resolver.registry).1
    { session.resolver with registry := (query.happen event session.resolver.registry).2 } at after
  show Op.Lands _ _ (.ok (query.happen event session.resolver.registry).1, { session with
    resolver := { session.resolver with
      registry := (query.happen event session.resolver.registry).2 } })
  generalize query.happen event session.resolver.registry = happened at after ⊢
  obtain ⟨⟨_ | result, next⟩, registry⟩ := happened
  · exact ⟨⟨after, idle.2⟩, .inl rfl⟩
  · obtain ⟨blank, failure, rfl⟩ := after
    exact ⟨⟨blank, idle.2⟩, .inr ⟨failure, rfl⟩⟩

/-- A `pass` without passes around it that goes on in an idle session still waits, or ends. -/
theorem idles_resume {pass : Pass} (flat : pass.outer = []) (event : Event) :
    Idles outbox (pass.resume event) fun progress => ∀ next ∈ progress.passes, next.outer = [] := by
  refine (idles_happen pass.asked.query event).bind ?_
  rintro ⟨_, query⟩ (rfl | ⟨failure, rfl⟩)
  · exact .pure (List.forall_mem_singleton.mpr flat)
  · have concludes : Idles outbox (conclude pass.asked (.error failure)) fun taken =>
        ∃ other, taken = (.finished (.error other), []) := by
      refine (pass.asked.inquiry.idles_evaluate failure).bind ?_
      rintro _ ⟨other, rfl⟩
      exact .pure ⟨other, rfl⟩
    refine concludes.bind ?_
    rintro _ ⟨other, rfl⟩
    rw [flat]
    exact .pure (List.forall_mem_nil _)

end Pass

namespace Call

theorem idles_beginQuestion (name : Name) (type : RecordType) :
    Idles outbox (beginQuestion name type) fun activity => activity.passes = [] := by
  refine Session.idles_configuredRota.bind fun rota _ => ?_
  refine Op.Keeps.bind (Inquiry.idles_askNext _) ?_
  rintro _ ⟨failure, rfl⟩
  exact .pure rfl

theorem idles_resumeQuestion (asked : Asked) (event : Event) :
    Idles outbox (resumeQuestion asked event) fun activity =>
      ∀ next ∈ activity.passes, next.outer = [] := by
  refine (Pass.idles_happen asked.query event).bind ?_
  rintro ⟨_, query⟩ (rfl | ⟨failure, rfl⟩)
  · exact .pure (List.forall_mem_singleton.mpr rfl)
  · refine (asked.inquiry.idles_evaluate failure).bind ?_
    rintro _ ⟨other, rfl⟩
    exact .pure (List.forall_mem_nil _)

end Call

/-- The `passes` are not nested. -/
def Pass.Flat (passes : List Pass) : Prop := ∀ pass ∈ passes, pass.outer = []

/-- Whatever calls do with a closed resolver, if it is `Idle` and no pass waits for another one,
then no delegations are remembered. -/
def Conduct.idle (outbox : List Datagram) : Conduct where
  Holds passes resolver :=
    (resolver.Blank outbox ∧ resolver.delegations.isEmpty = true) ∧ Pass.Flat passes
  perm same holds := ⟨holds.1, fun pass mem => holds.2 pass (same.mem_iff.mpr mem)⟩
  start rest name type := by
    refine (Op.Triple.frame (Pass.Flat rest) (Pass.idles_start name type)).weaken ?_
    rintro progress session ⟨⟨idle, none⟩, flat⟩
    rw [none]
    exact ⟨idle, flat⟩
  resume rest pass event := by
    rintro session ⟨idle, flat⟩
    obtain ⟨own, others⟩ := List.forall_mem_cons.mp flat
    refine (Op.Triple.frame (Pass.Flat (pass :: rest)) (Pass.idles_resume own event)).weaken ?_
      session ⟨idle, flat⟩
    rintro progress session ⟨⟨idle, next⟩, -⟩
    exact ⟨idle, List.forall_mem_append.mpr ⟨next, others⟩⟩
  question rest name type := by
    refine (Op.Triple.frame (Pass.Flat rest) (Call.idles_beginQuestion name type)).weaken ?_
    rintro activity session ⟨⟨idle, none⟩, flat⟩
    rw [none]
    exact ⟨idle, flat⟩
  answer rest asked event := by
    refine (Op.Triple.frame (Pass.Flat (⟨asked, []⟩ :: rest))
      (Call.idles_resumeQuestion asked event)).weaken ?_
    rintro activity session ⟨⟨idle, next⟩, flat⟩
    exact ⟨idle, List.forall_mem_append.mpr ⟨next, (List.forall_mem_cons.mp flat).2⟩⟩
  drop pass holds := ⟨⟨holds.1.1.onRegistry Query.fewer_drop.1 Query.fewer_drop.2, holds.1.2⟩,
    (List.forall_mem_cons.mp holds.2).2⟩

end

end NameResolution
