import NameResolution.Proofs.Cache.Soundness
import NameResolution.Proofs.Query.Correlation
import NameResolution.Proofs.Resolution.Evidence
import NameResolution.Proofs.Resolution.Spending

/-!
# Sound resolvers

Whatever messages arrive, a resolver keeps encodable records only, and searches for names below
absolute ones. Asking such a resolver for an absolute name succeeds.

* `Rota.Proper.isSome_turn?`: a turn that is left can be taken.
* `Registry.Sound.deliver`, `Query.settling_happen`: queries are settled by encodable responses
  only.
* `Resolver.Sound`: the caches are sound, the cache of answers is tidy, the replies that wait are
  encodable, and the clock is timely.
* `Session.Safe`: an operation of a session that succeeds whenever the resolver is sound.
* `Inquiry.Sound`: an inquiry about an absolute name, by turns that can be taken. It goes on safely.
-/

namespace NameResolution

open RecordSet (AllEncodable)

/-! ## Rotas -/

namespace Rota

/-- As long as a turn is left, there are `servers`. -/
def Proper (rota : Rota) : Prop := rota.next < rota.stop → rota.servers ≠ []

theorem proper_rounds (servers : List Endpoint) (offset count : Nat) :
    (rounds servers offset count).Proper := by
  rintro left rfl
  have wrapped := Nat.mod_le offset wordCount
  simp [rounds] at left
  omega

theorem proper_once (servers : List Endpoint) : (once servers).Proper := by
  rintro left rfl
  exact absurd left (Nat.lt_irrefl 0)

/-- A turn that is left can be taken: the place `next` in the list is one of the list. -/
theorem Proper.isSome_turn? {rota : Rota} (proper : rota.Proper) (left : rota.next < rota.stop) :
    rota.turn?.isSome := by
  have inside : rota.next % rota.servers.length < rota.servers.length :=
    Nat.mod_lt _ (List.length_pos_iff.mpr (proper left))
  rw [turn?, if_pos left, List.getElem?_eq_getElem inside]
  rfl

theorem Proper.turn? {rota next : Rota} {server : Endpoint} (proper : rota.Proper)
    (turn : rota.turn? = some (server, next)) : next.Proper := by
  unfold Rota.turn? at turn
  split at turn
  · rename_i left
    obtain ⟨other, -, same⟩ := Option.map_eq_some_iff.mp turn
    obtain ⟨-, rfl⟩ := Prod.mk.inj same
    exact fun _ => proper left
  · cases turn

end Rota

/-! ## Registries and queries -/

namespace Registry

/-- Every response of the `registry` that waits to be taken up is encodable. -/
def Sound (registry : Registry) : Prop :=
  ∀ serial message, (serial, .response message) ∈ registry.replies → message.Encodable

theorem sound_empty (starts : Nat → UInt16) : (empty starts).Sound :=
  fun _ _ member => nomatch member

theorem Sound.of_subset {before after : Registry} (sound : before.Sound)
    (subset : after.replies ⊆ before.replies) : after.Sound :=
  fun serial message member => sound serial message (subset member)

theorem Sound.release {registry : Registry} (sound : registry.Sound) (server : Endpoint)
    (id : UInt16) (serial : Nat) : (registry.release server id serial).Sound :=
  sound.of_subset fun _ member => (List.mem_filter.mp member).1

/-- Whatever `octets` arrive, the responses that wait are encodable. -/
theorem Sound.deliver {registry : Registry} (sound : registry.Sound) (hook : Hook)
    (source : Endpoint) (octets : Octets) :
    (Registry.deliver hook source octets registry).2.Sound := by
  unfold Registry.deliver
  cases read : readResponse octets with
  | error failure => exact sound
  | ok message =>
    have encodable := (Message.decode_encode.2 octets message
      (readResponse_eq_ok_iff.mp read).1).1
    simp only [stateM_bind_apply, stateM_get_apply]
    cases registry.find? source message.header.id with
    | none => exact sound
    | some entry =>
      dsimp only
      split
      · intro serial other member
        obtain new | waits := List.mem_cons.mp member
        · have reply := (Prod.mk.inj new).2
          split at reply
          · exact Reply.response.inj reply ▸ encodable
          · cases reply
        · exact sound serial other waits
      · exact sound

end Registry

namespace Query

/-- If a `Query` is settled by a response, this is encodable. -/
def SoundlySettled (outcome : Option Settlement × Query) : Prop :=
  ∀ result, outcome.1 = some result → WhenOk Message.Encodable result

/-- The operation keeps a `Registry` sound, and settles a `Query` by encodable responses only. -/
def Settling (op : StateM Registry (Option Settlement × Query)) : Prop :=
  ∀ registry : Registry, registry.Sound →
    (op registry).2.Sound ∧ SoundlySettled (op registry).1

theorem settling_settle (query : Query) (state : QueryState) {result : Settlement}
    (fine : WhenOk Message.Encodable result) : Settling (query.settle state result) :=
  fun _ sound => ⟨sound.release query.server query.id query.serial,
    fun _ same => Option.some.inj same ▸ fine⟩

theorem settling_check (query : Query) : Settling query.check := by
  intro registry sound
  simp only [check, stateM_bind_apply, stateM_get_apply]
  cases fate : registry.fate query.serial with
  | waiting => exact ⟨sound, fun _ same => nomatch same⟩
  | gone => exact settling_settle query .cancelled whenOk_error registry sound
  | answered reply =>
    cases reply with
    | rejected => exact settling_settle query .transportFailed whenOk_error registry sound
    | response message =>
      -- The response waited in the registry, where all responses are encodable.
      refine settling_settle query .succeeded (whenOk_ok.mpr (sound query.serial message ?_))
        registry sound
      unfold Registry.fate at fate
      split at fate
      · rename_i reply found
        obtain rfl := Fate.answered.inj fate
        obtain ⟨front, back, same, -⟩ := List.lookup_eq_some_iff.mp found
        rw [same]
        exact List.mem_append_right _ List.mem_cons_self
      · split at fate <;> cases fate

/-- Whatever happens to a `query`, it is settled by encodable responses only. -/
theorem settling_happen (query : Query) (event : Event) : Settling (query.happen event) := by
  unfold happen
  split
  · exact settling_check _
  · exact settling_settle query _ whenOk_error
  · exact settling_check query
  · intro registry sound
    have checked := settling_check query registry sound
    rw [stateM_bind_apply]
    rcases found : query.check registry with ⟨⟨_ | result, next⟩, after⟩
    · rw [found] at checked
      exact settling_settle next .timedOut whenOk_error after checked.1
    · rwa [found] at checked
  · exact fun _ sound => ⟨sound, fun _ same => nomatch same⟩

theorem sound_drop (query : Query) {registry : Registry} (sound : registry.Sound) :
    (query.drop registry).2.Sound := by
  unfold drop
  split
  · exact sound
  · exact sound.release query.server query.id query.serial

/-- A `query` that is new and asks for an absolute `name` can be begun. -/
theorem begin_of_new {query : Query} (hook : Hook) (new : query.begun = false)
    (absolute : query.question.name.absolute = true) :
    ∃ octets after, begin hook query = (.ok octets, after) := by
  have encodable : (Message.query query.question query.id true).Encodable :=
    ⟨⟨Nat.le_of_ble_eq_true rfl, List.forall_mem_singleton.mpr absolute⟩, .empty, .empty, .empty⟩
  obtain ⟨octets, -, written, -⟩ := Message.encode_spec encodable
  have begins : begin hook query = (.ok (hook.sign query.server octets),
      { query with begun := true, state := .writing }) := by
    simp [begin, new, written, Except.map]
  exact ⟨_, _, begins⟩

/-- A `query` that has been registered is new. -/
theorem sound_register (server : Endpoint) (question : Question) {registry : Registry}
    (sound : registry.Sound) :
    (register server question registry).2.Sound ∧
      WhenOk (fun query => query.begun = false ∧ query.question = question)
        (register server question registry).1 := by
  simp only [register, stateM_bind_apply, stateM_get_apply]
  obtain refused | ⟨id, -, added⟩ :=
    Registry.add_cases registry.nextStart server question registry
  · rw [refused]
    exact ⟨sound, whenOk_error⟩
  · rw [added]
    exact ⟨sound, whenOk_ok.mpr ⟨rfl, rfl⟩⟩

end Query

/-! ## Resolvers -/

namespace Resolver

/-- What a `resolver` can rely on at a time, whatever has arrived: relative names are searched for
below absolute ones, only encodable records are kept, each under its owner, and the clock is
timely. -/
structure Sound (now : Duration) (resolver : Resolver) : Prop where
  search : ∀ name ∈ resolver.settings.search, name.absolute = true
  cache : resolver.cache.Sound
  tidy : resolver.cache.Tidy
  delegations : resolver.delegations.Sound
  registry : resolver.registry.Sound
  time : resolver.now = now
  clock : Cache.Timely now

variable {now : Duration}

theorem succeeds_onCache {α : Type} {op : Duration → Op Cache α} {P : α → Prop}
    (succeeds : Cache.Timely now → Op.Succeeds Cache.Sound (op now) P)
    (keeps : Op.Ensures Cache.Tidy (op now) fun _ => True) :
    Op.Succeeds (Sound now) (onCache op) P := by
  intro before sound
  obtain ⟨value, after, ran, kept, holds⟩ := succeeds sound.clock before.cache sound.cache
  obtain ⟨tidy, -⟩ := keeps before.cache sound.tidy value after ran
  refine ⟨value, { before with cache := after }, ?_, { sound with cache := kept, tidy := tidy },
    holds⟩
  simp only [onCache, Op.runOn_eq, sound.time, ran]

theorem succeeds_onDelegations {α : Type} {op : Duration → Op Delegations α} {P : α → Prop}
    (succeeds : Cache.Timely now → Op.Succeeds Delegations.Sound (op now) P) :
    Op.Succeeds (Sound now) (onDelegations op) P := by
  intro before sound
  obtain ⟨value, after, ran, kept, holds⟩ :=
    succeeds sound.clock before.delegations sound.delegations
  refine ⟨value, { before with delegations := after }, ?_, { sound with delegations := kept },
    holds⟩
  simp only [onDelegations, Op.runOn_eq, sound.time, ran]

theorem sound_onRegistry {α : Type} {op : StateM Registry α} {P : α → Prop}
    (keeps : ∀ registry : Registry, registry.Sound → (op registry).2.Sound ∧ P (op registry).1)
    {resolver : Resolver} (sound : resolver.Sound now) :
    (onRegistry op resolver).2.Sound now ∧ P (onRegistry op resolver).1 :=
  (keeps resolver.registry sound.registry).imp_left fun kept => { sound with registry := kept }

theorem sound_drop (query : Query) {resolver : Resolver} (sound : resolver.Sound now) :
    (onRegistry query.drop resolver).2.Sound now :=
  { sound with registry := query.sound_drop sound.registry }

/-- The configured servers are asked by turns that can be taken: their rota is `Proper`. -/
theorem sound_configuredRota {resolver : Resolver} (sound : resolver.Sound now) :
    (configuredRota resolver).2.Sound now ∧ (configuredRota resolver).1.Proper := by
  cases rotates : resolver.settings.rotate with
  | true =>
    have ran : configuredRota resolver =
        (.rounds resolver.settings.servers resolver.rotation resolver.settings.attempts,
          { resolver with rotation := resolver.rotation + 1 }) := by
      simp [configuredRota, rotates]
    rw [ran]
    exact ⟨{ sound with }, Rota.proper_rounds _ _ _⟩
  | false =>
    have ran : configuredRota resolver =
        (.rounds resolver.settings.servers 0 resolver.settings.attempts, resolver) := by
      simp [configuredRota, rotates]
    rw [ran]
    exact ⟨sound, Rota.proper_rounds _ _ _⟩

end Resolver

/-! ## Sessions -/

/-- What the cache makes of a `name` is an encodable `answer`, or an absolute name. -/
def Cached.Sound : Cached → Prop
  | .hit result => WhenOk (fun answer => AllEncodable answer.sets) result
  | .miss name => name.absolute = true

namespace Session

/-- From a resolver that is sound at the time `now` the operation `op` is never refused. It leaves
the resolver sound, and its value has the property `P`. -/
abbrev Safe {α : Type} (now : Duration) (op : Op Session α) (P : α → Prop) : Prop :=
  Op.Succeeds (fun session : Session => session.resolver.Sound now) op P

variable {now : Duration}

theorem safe_onResolver {α : Type} {op : Op Resolver α} {P : α → Prop}
    (succeeds : Op.Succeeds (Resolver.Sound now) op P) : Safe now (onResolver op) P :=
  .onPart (fun _ sound => sound) (fun _ _ _ sound => sound) succeeds

theorem safe_withResolver {α : Type} {op : StateM Resolver α} {P : α → Prop}
    (keeps : ∀ resolver : Resolver,
      resolver.Sound now → (op resolver).2.Sound now ∧ P (op resolver).1) :
    Safe now (withResolver op) P :=
  safe_onResolver (.lift keeps)

theorem safe_settings :
    Safe now settings fun settings => ∀ name ∈ settings.search, name.absolute = true :=
  .bind .get fun _ sound => .pure sound.search

theorem safe_takeQuery : Safe now takeQuery fun _ => True := by
  intro before sound
  obtain refused | ⟨budget, taken, -⟩ := takeQuery_spec before
  · exact ⟨_, _, refused, sound, trivial⟩
  · exact ⟨_, _, taken, sound, trivial⟩

theorem safe_send {query : Query} (new : query.begun = false)
    (absolute : query.question.name.absolute = true) : Safe now (send query) fun _ => True := by
  refine .bind .get fun session _ => ?_
  obtain ⟨octets, after, begun⟩ := Query.begin_of_new session.resolver.hook new absolute
  rw [Op.runOn_eq, begun]
  exact (safe_withResolver (P := fun _ => True) fun resolver sound =>
    ⟨{ sound with }, trivial⟩).bind fun _ _ => .pure trivial

/-- Asking for an absolute `name` is `Safe`. -/
theorem safe_ask (server : Endpoint) {name : Name} (absolute : name.absolute = true)
    (type : RecordType) : Safe now (ask server name type) fun _ => True := by
  refine .bind .get fun session _ => ?_
  split
  · exact .pure trivial
  refine safe_takeQuery.bind fun taken _ => ?_
  cases taken with
  | false => exact .pure trivial
  | true =>
    refine (safe_withResolver fun resolver => Resolver.sound_onRegistry fun registry =>
      Query.sound_register server (.internet name type)).bind fun registered new => ?_
    cases registered with
    | error failure => exact .pure trivial
    | ok query =>
      obtain ⟨new, asks⟩ := whenOk_ok.mp new
      have here : query.question.name.absolute = true := by rw [asks]; exact absolute
      exact (safe_send new here).bind fun _ _ => .pure trivial

theorem safe_happen (query : Query) (event : Event) :
    Safe now (withResolver (Resolver.onRegistry (query.happen event))) Query.SoundlySettled :=
  safe_withResolver fun _ => Resolver.sound_onRegistry (Query.settling_happen query event)

/-! ### Using what is known -/

theorem encodable_of_resultFound? {name : Name} {found : Lookup}
    (encodable : AllEncodable found.sets) {result : Except Failure Answer}
    (is : resultFound? name found = some result) :
    WhenOk (fun answer => AllEncodable answer.sets) result := by
  cases found with
  | successful sets =>
    obtain rfl := Option.some.inj is
    exact whenOk_ok.mpr encodable
  | nxDomain | nxRrset =>
    obtain rfl := Option.some.inj is
    exact whenOk_error
  | _ => cases is

theorem absolute_of_aliasFound? {name : Name} {found : Lookup} (encodable : AllEncodable found.sets)
    {next : Name} (leads : aliasFound? name found = some next) : next.absolute = true := by
  cases found with
  | cname set =>
    obtain ⟨datum, member, target⟩ := List.exists_of_findSome?_eq_some leads
    exact ((encodable set List.mem_cons_self).data datum member).aliasTarget target
  | dname set =>
    have first := (encodable set List.mem_cons_self).first
    unfold aliasFound? at leads
    dsimp only at leads
    split at leads
    · rename_i target is
      rw [is] at first
      split at leads
      · rename_i rewritten
        rw [leads] at rewritten
        exact (Name.rewrite?_eq_some_iff.mp rewritten).2.2.trans first
      · cases leads
    · cases leads
  | _ => cases leads

/-- Following aliases in a `Sound` `Cache` succeeds. -/
theorem succeeds_followCached (type : RecordType) (now : Duration) (steps : Nat) {name : Name}
    (absolute : name.absolute = true) :
    Op.Succeeds Cache.Sound (followCached type now steps name) Cached.Sound := by
  induction steps generalizing name with
  | zero => exact .pure absolute
  | succ steps ih =>
    refine (Cache.succeeds_lookup absolute type .normal now).bind fun found encodable => ?_
    split
    · rename_i result is
      exact .pure (encodable_of_resultFound? encodable is)
    · rename_i next _ leads
      exact ih (absolute_of_aliasFound? encodable leads)
    · exact .pure absolute

theorem safe_consultCache {name : Name} (absolute : name.absolute = true) (type : RecordType) :
    Safe now (consultCache name type) Cached.Sound :=
  safe_onResolver (Resolver.succeeds_onCache
    (fun _ => succeeds_followCached type now cachedAliases absolute)
    (keeps_followCached type now cachedAliases name).ensures)

theorem safe_serversAround {name : Name} (absolute : name.absolute = true) :
    Safe now (serversAround name) fun around => around.2.Proper := by
  refine safe_settings.bind fun settings _ => ?_
  refine (safe_onResolver (Resolver.succeeds_onDelegations fun _ =>
    Delegations.succeeds_serversFor absolute settings.port now)).bind fun known _ => ?_
  split
  · exact .pure (Rota.proper_once _)
  · exact (safe_withResolver fun _ => Resolver.sound_configuredRota).bind fun _ proper =>
      .pure proper

theorem safe_learn {response : Message} (encodable : response.Encodable) :
    Safe now (learn response) fun _ => True :=
  (safe_onResolver (Resolver.succeeds_onCache
    (fun timely => Cache.succeeds_addMessage encodable timely)
    (Cache.keeps_addMessage response now).ensures)).bind fun _ _ => .pure trivial

end Session

open Session (Safe)

/-! ## Inquiries -/

/-- An `inquiry` about an absolute name, by turns that can be taken. -/
structure Inquiry.Sound (inquiry : Inquiry) : Prop where
  name : inquiry.name.absolute = true
  rota : inquiry.rota.Proper

/-- The `inquiry` of a query under way is `Sound`. -/
def Asked.Sound (asked : Asked) : Prop := asked.inquiry.Sound

/-- A `response` to go by is `Encodable`, and another query is put soundly. -/
def Evaluation.Sound : Evaluation → Prop
  | .response message => message.Encodable
  | .again asked => asked.Sound
  | .failed _ => True

namespace Inquiry

variable {now : Duration}

theorem safe_askServer {inquiry : Inquiry} (sound : inquiry.Sound) (server : Endpoint) :
    Safe now (inquiry.askServer server) (WhenOk Asked.Sound) := by
  refine (Session.safe_ask server sound.name inquiry.type).bind fun asking _ => .pure ?_
  cases asking with
  | error failure => exact whenOk_error
  | ok query => exact whenOk_ok.mpr sound

theorem safe_askNext {inquiry : Inquiry} (sound : inquiry.Sound) :
    Safe now inquiry.askNext (WhenOk Asked.Sound) := by
  unfold askNext
  split
  · rename_i server rota turn
    have next : Inquiry.Sound { inquiry with rota := rota } :=
      ⟨sound.name, sound.rota.turn? turn⟩
    exact safe_askServer next server
  · exact .pure whenOk_error

theorem safe_retry {inquiry : Inquiry} (sound : inquiry.Sound) (failure : Failure) :
    Safe now (inquiry.retry failure) (WhenOk Asked.Sound) :=
  safe_askNext ⟨sound.name, sound.rota⟩

theorem safe_evaluate {inquiry : Inquiry} (sound : inquiry.Sound) {result : Settlement}
    (fine : WhenOk Message.Encodable result) :
    Safe now (inquiry.evaluate result) Evaluation.Sound := by
  have usable : WhenOk Message.Encodable (usable result) := by
    cases result with
    | error failure => exact whenOk_error
    | ok response =>
      unfold Inquiry.usable
      dsimp only
      split
      · exact fine
      · exact whenOk_error
  unfold evaluate
  cases used : Inquiry.usable result with
  | ok response =>
    have encodable := usable response used
    exact (Session.safe_learn encodable).bind fun _ _ => .pure encodable
  | error failure =>
    dsimp only
    split
    · refine (safe_retry sound failure).bind fun retried asked => ?_
      cases retried with
      | ok next => exact .pure (show next.Sound from whenOk_ok.mp asked)
      | error failure => exact .pure trivial
    · exact .pure trivial

end Inquiry

end NameResolution
