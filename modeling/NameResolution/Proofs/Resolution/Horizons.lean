import NameResolution.Proofs.Cache.Glue
import NameResolution.Proofs.Resolution.Closing
import NameResolution.Proofs.Resolution.Steps
import NameResolution.Proofs.Settings

/-!
# The servers within the horizon of a resolver

A resolver comes to know servers from its settings and from the messages that it hears. Passes ask
none but these.

* `Message.RefersTo`: a response gives an address for a name server.
* `Horizon`: what a resolver has to go by. `Horizon.Reaches`: the servers within it.
* `Horizon.Bounds`: a resolver that remembers and asks servers within the horizon only.
* `Horizon.keeps_start`, `Horizon.keeps_resume`: passes keep it so, with all servers that they may
  still come to ask.
* `Horizon.conduct`: so do calls.
-/

namespace NameResolution

/-- The response names a server in its authority section, and gives an `address` for it. -/
def Message.RefersTo (message : Message) (address : Address) : Prop :=
  ∃ delegation ∈ message.authority, ∃ glue ∈ message.additional, ∃ server,
    delegation.data = .ns server ∧ (glue.owner == server) = true ∧
      glue.data.address? = some address

/-- All record sets of the `answer` are of the `type`, and so is all their data. -/
def Answer.IsOf (type : RecordType) (answer : Answer) : Prop :=
  ∀ set ∈ answer.sets, set.type = type ∧ set.Uniform

/-- What is found in a `Tidy` `cache` for a single `type` is of this type. -/
theorem Session.isOf_followCached {type : RecordType} (single : type ≠ .any) {cache after : Cache}
    (tidy : cache.Tidy) {now : Duration} {steps : Nat} {name : Name}
    {result : Except Failure Answer}
    (ran : followCached type now steps name cache = (.ok (.hit result), after)) :
    WhenOk (Answer.IsOf type) result := by
  intro answer same set member
  have rests : WhenOk (Answer.RestsOn (cache.Shows now) name type) result :=
    restsOn_followCached single steps tidy ran
  obtain ⟨shows, kind, -⟩ := (rests answer same).sets set member
  exact ⟨kind, tidy.uniform_of_shows shows⟩

/-- An `answer` in a `response` is of the `type` that was asked for. -/
theorem Outcome.isOf_classify {response : Message} {name : Name} {type : RecordType}
    {answer : Answer} (meant : classify response name type = .answer answer) :
    answer.IsOf type := by
  have means := restsOn_classify response name type
  rw [meant] at means
  exact fun set member => ⟨(means.sets set member).2.1,
    RecordSet.uniform_of_mem_group set (means.sets set member).1⟩

/-! ## Servers that are asked -/

/-- Registering hands over no `replies`. The `Query` that is registered is for the `server`. -/
theorem Query.register_spec (server : Endpoint) (question : Question) (registry : Registry) :
    (register server question registry).2.replies = registry.replies ∧
      WhenOk (·.server = server) (register server question registry).1 := by
  simp only [register, stateM_bind_apply, stateM_get_apply, stateM_pure_apply]
  obtain refused | ⟨id, -, added⟩ := Registry.add_cases registry.nextStart server question registry
  · rw [refused]
    exact ⟨rfl, whenOk_error⟩
  · rw [added]
    exact ⟨rfl, whenOk_ok.mpr rfl⟩

namespace Session

theorem server_of_send {query sent : Query} {before after : Session}
    (ran : send query before = (.ok sent, after)) : sent.server = query.server := by
  simp only [send, Op.bind_apply, Op.get_apply] at ran
  obtain ⟨-, begun⟩ | ⟨-, ⟨misuse, begun⟩ | ⟨octets, begun⟩⟩ :=
    Query.begin_cases before.resolver.hook query <;> rw [begun] at ran <;> cases ran
  rfl

/-- The `query` that comes of asking a `server` is for this server. -/
theorem server_of_ask {server : Endpoint} {name : Name} {type : RecordType} {query : Query}
    {before after : Session} (ran : ask server name type before = (.ok (.ok query), after)) :
    query.server = server := by
  obtain ⟨session, _, got, ran⟩ := Op.bind_eq_ok.mp ran
  cases got
  by_cases closed : before.resolver.closed = true
  · rw [if_pos closed] at ran
    cases ran
  rw [if_neg closed] at ran
  obtain ⟨taken, middle, -, ran⟩ := Op.bind_eq_ok.mp ran
  cases taken with
  | false => cases ran
  | true =>
    obtain ⟨registered, _, registers, ran⟩ := Op.bind_eq_ok.mp ran
    cases registered with
    | error failure => cases ran
    | ok fresh =>
      have own := (Query.register_spec server (.internet name type) middle.resolver.registry).2
      obtain ⟨sent, _, sends, rest⟩ := Op.bind_eq_ok.mp ran
      cases rest
      exact (server_of_send sends).trans (own fresh (Except.ok.inj (Prod.mk.inj registers).1))

end Session

/-- An `inquiry` asks a `server` of its `rota`, and goes on with the same rota. -/
theorem Inquiry.server_of_askNext {inquiry : Inquiry} {asked : Asked} {before after : Session}
    (ran : inquiry.askNext before = (.ok (.ok asked), after)) :
    asked.query.server ∈ inquiry.rota.servers ∧
      asked.inquiry.rota.servers = inquiry.rota.servers := by
  refine ⟨?_, ((yields_askNext _ _ _ _ ran).2 asked rfl).servers⟩
  unfold askNext at ran
  cases turn : inquiry.rota.turn? with
  | none =>
    rw [turn] at ran
    cases ran
  | some next =>
    rw [turn] at ran
    obtain ⟨asking, _, asks, rest⟩ := Op.bind_eq_ok.mp ran
    cases asking with
    | error failure => cases rest
    | ok query =>
      cases rest
      rw [Session.server_of_ask asks]
      exact (Rota.turn?_eq_some turn).1

/-! ## Horizons -/

/-- What a `Resolver` has to go by: its settings and hosts, and the messages that it has heard. -/
structure Horizon where
  settings : Settings
  hosts : HostTable
  Heard : Message → Prop

namespace Horizon

variable (horizon : Horizon)

/-- The `address` is of a family that is looked up, or a response refers to it. -/
def Knows (address : Address) : Prop :=
  address.family ∈ horizon.settings.preference.types ∨
    ∃ message, horizon.Heard message ∧ message.RefersTo address

/-- The `server` is configured, or its address is known. -/
def Reaches (server : Endpoint) : Prop :=
  server ∈ horizon.settings.servers ∨ horizon.Knows server.address

/-- The `resolver` has heard nothing else, remembers no other addresses, and asks no others. -/
structure Bounds (resolver : Resolver) : Prop where
  settings : resolver.settings = horizon.settings
  hosts : resolver.hosts = horizon.hosts
  cache : resolver.cache.Tidy
  delegations : resolver.delegations.cache.Stores horizon.Knows
  replies : ∀ serial message, (serial, Reply.response message) ∈ resolver.registry.replies →
    horizon.Heard message
  outbox : ∀ datagram ∈ resolver.outbox, horizon.Reaches datagram.server

/-- A `new` resolver is bound by what it was made with, whatever it is to hear. -/
theorem bounds_new (settings : Settings) (hosts : HostTable) (hook : Hook) (limits : CacheSettings)
    (starts : Nat → UInt16) (Heard : Message → Prop) :
    Bounds ⟨settings, hosts, Heard⟩ (.new settings hosts hook limits starts) where
  settings := rfl
  hosts := rfl
  cache := Cache.tidy_empty limits
  delegations := Cache.stores_empty limits
  replies _ _ member := absurd member List.not_mem_nil
  outbox := List.forall_mem_nil _

/-- The operation `op` stays within the horizon, and what it gives has the property `P`. -/
abbrev Keeps {α : Type} (op : Op Session α) (P : α → Prop) : Prop :=
  Op.Keeps (fun session => horizon.Bounds session.resolver) op P

variable {horizon : Horizon}

/-- The addresses that a `referral` gives are known. -/
theorem tells_of_classify {response : Message} (heard : horizon.Heard response) {name : Name}
    {type : RecordType} {referral : Referral}
    (refers : Outcome.classify response name type = .referral referral) :
    referral.servers.Tells horizon.Knows ∧
      ∀ set ∈ referral.glue, set.Tells horizon.Knows := by
  have means := Outcome.means_classify response name type
  rw [refers] at means
  cases means with | @referral reached servers leads exist same delegated unanswered => ?_
  obtain ⟨member, kind, -⟩ := Outcome.delegated?_eq_some delegated
  have uniform := RecordSet.uniform_of_mem_group servers member
  refine ⟨uniform.tells kind, fun set among datum own address gives => .inr ?_⟩
  obtain ⟨among, useful⟩ := List.mem_filter.mp among
  rw [decide_eq_true_eq] at useful
  -- The glue belongs to a server that an NS record of the same response names.
  obtain ⟨server, listed, same⟩ := List.contains_iff_exists_mem_beq.mp useful.2
  obtain ⟨data, listed, names⟩ := List.mem_filterMap.mp listed
  obtain ⟨delegation, first, -, rfl⟩ := RecordSet.exists_record servers member data listed
  obtain ⟨glue, second, owner, rfl⟩ := RecordSet.exists_record set among datum own
  have is : delegation.data.type = .ns := (uniform _ listed).trans kind
  refine ⟨response, heard, delegation, first, glue, second, server, ?_, ?_, gives⟩
  · cases data : delegation.data with
    | ns other =>
      rw [data] at names
      rw [Option.some.inj names]
    | mx preference other =>
      rw [data] at is
      cases is
    | _ =>
      rw [data] at names
      cases names
  · exact Name.beq_iff.mpr ((Name.beq_iff.mp owner).symm.trans (Name.beq_iff.mp same))

/-- Addresses that were looked up are known. -/
theorem tells_of_isOf {type : RecordType} (looked : type ∈ horizon.settings.preference.types)
    {answer : Answer} (isOf : answer.IsOf type) : ∀ set ∈ answer.sets, set.Tells horizon.Knows := by
  intro set member datum own address gives
  obtain ⟨kind, uniform⟩ := isOf set member
  have family := uniform.family own gives
  rw [kind] at family
  exact .inl (family ▸ looked)

/-! ## Sessions -/

section

open Session hiding settings

variable {α : Type} {P : α → Prop}

theorem keeps_settings : horizon.Keeps Session.settings (· = horizon.settings) :=
  .of_run (fun _ => id) fun _ bounds _ same => Except.ok.inj same ▸ bounds.settings

theorem keeps_onDelegations {op : Duration → Op Delegations α}
    (keeps : ∀ now, Op.Keeps (fun delegations : Delegations =>
      delegations.cache.Stores horizon.Knows) (op now) P) :
    horizon.Keeps (onResolver (Resolver.onDelegations op)) P :=
  .of_run (fun session bounds => { bounds with
      delegations := (keeps session.resolver.now).after bounds.delegations })
    fun session bounds => (keeps session.resolver.now).whenOk bounds.delegations

/-- An operation on the `registry` that hands over no responses keeps to the `horizon`. -/
theorem keeps_onRegistry (op : StateM Registry α)
    (replies : ∀ registry, (op registry).2.replies ⊆ registry.replies) :
    horizon.Keeps (withResolver (Resolver.onRegistry op)) fun value =>
      ∃ registry, value = (op registry).1 ∧
        ∀ serial message, (serial, Reply.response message) ∈ registry.replies →
          horizon.Heard message :=
  .of_run (fun _ bounds => { bounds with
      replies := fun serial message member => bounds.replies serial message (replies _ member) })
    fun session bounds _ same =>
      ⟨session.resolver.registry, (Except.ok.inj same).symm, bounds.replies⟩

theorem keeps_configuredRota :
    horizon.Keeps (withResolver Resolver.configuredRota) fun rota =>
      ∀ server ∈ rota.servers, horizon.Reaches server := by
  have configured (session : Session) (bounds : horizon.Bounds session.resolver) :
      ∀ server ∈ session.resolver.settings.servers, horizon.Reaches server :=
    fun server member => .inl (bounds.settings ▸ member)
  refine .of_run (fun session bounds => ?_) fun session bounds rota same => ?_ <;>
    rw [withResolver_apply] at * <;>
    cases rotates : session.resolver.settings.rotate
  · simpa [Resolver.configuredRota, rotates] using bounds
  · simpa [Resolver.configuredRota, rotates] using { bounds with }
  all_goals
    obtain rfl := Except.ok.inj same
    simpa [Resolver.configuredRota, rotates, Rota.rounds] using configured session bounds

theorem keeps_serversAround (name : Name) :
    horizon.Keeps (serversAround name) fun around =>
      ∀ server ∈ around.2.servers, horizon.Reaches server := by
  refine keeps_settings.bind fun settings _ => ?_
  refine (keeps_onDelegations fun now =>
    Delegations.keeps_serversFor name settings.port now).bind fun known gives => ?_
  split
  · exact .pure fun server member => .inr (gives _ _ rfl server member)
  · exact keeps_configuredRota.bind fun rota reaches => .pure reaches

theorem keeps_consultCache (name : Name) (type : RecordType) :
    horizon.Keeps (consultCache name type) fun known =>
      type ≠ .any → ∀ result, known = .hit result → WhenOk (Answer.IsOf type) result := by
  refine .of_run (fun session bounds => { bounds with
    cache := (keeps_followCached type _ cachedAliases name).after bounds.cache }) ?_
  rintro session bounds _ same single result rfl
  have ran : (followCached type session.resolver.now cachedAliases name session.resolver.cache).1 =
      .ok (.hit result) := same
  exact isOf_followCached single bounds.cache (Prod.ext ran rfl)

theorem keeps_learn (response : Message) : horizon.Keeps (learn response) fun _ => True := by
  have keeps : horizon.Keeps (onResolver (Resolver.onCache (Cache.addMessage response)))
      fun _ => True := .of_state fun session bounds => { bounds with
    cache := (Cache.keeps_addMessage response session.resolver.now).after bounds.cache }
  exact keeps.bind fun _ _ => .pure trivial

theorem keeps_send {query : Query} (reaches : horizon.Reaches query.server) :
    horizon.Keeps (send query) (·.server = query.server) := by
  refine .of_run (fun session bounds => ?_) fun session _ sent same =>
    server_of_send (Prod.ext same rfl)
  simp only [send, Op.bind_apply, Op.get_apply]
  obtain ⟨-, begun⟩ | ⟨-, ⟨misuse, begun⟩ | ⟨octets, begun⟩⟩ :=
    Query.begin_cases session.resolver.hook query <;> rw [begun]
  case inr.inr =>
    refine { bounds with outbox := ?_ }
    exact List.forall_mem_append.mpr ⟨bounds.outbox, List.forall_mem_singleton.mpr reaches⟩
  all_goals exact (keeps_onRegistry _ fun _ => Query.fewer_drop.2).after bounds

/-- A `server` that is asked is within the `horizon`. -/
theorem keeps_ask {server : Endpoint} (reaches : horizon.Reaches server) (name : Name)
    (type : RecordType) :
    horizon.Keeps (ask server name type) (WhenOk (·.server = server)) := by
  -- To ask takes a query out of the budget, registers it and sends it; only the last puts it into
  -- the outbox.
  have takes : horizon.Keeps takeQuery fun _ => True := .of_state fun session bounds => by
    obtain refused | ⟨budget, taken, -⟩ := takeQuery_spec session
    · rwa [refused]
    · rwa [taken]
  unfold ask
  refine Op.Keeps.get.bind fun session _ => ?_
  split
  · exact .pure whenOk_error
  refine takes.bind fun taken _ => ?_
  split
  · refine (keeps_onRegistry (Query.register server (.internet name type)) fun registry =>
      (Query.register_spec server _ registry).1 ▸ List.Subset.refl _).bind
      fun registered ⟨registry, same, _⟩ => ?_
    have own := (Query.register_spec server (.internet name type) registry).2
    rw [← same] at own
    cases registered with
    | error failure => exact .pure whenOk_error
    | ok query =>
      obtain rfl : query.server = server := own query rfl
      exact (keeps_send reaches).bind fun sent kept => .pure (whenOk_ok.mpr kept)
  · exact .pure whenOk_error

/-- A `query` ends with a response only if it was `Heard`. -/
theorem keeps_happen (query : Query) (event : Event) :
    horizon.Keeps (withResolver (Resolver.onRegistry (query.happen event))) fun happened =>
      happened.2.server = query.server ∧
        ∀ result, happened.1 = some result → WhenOk horizon.Heard result := by
  refine (keeps_onRegistry _ fun registry => ?_).imp ?_
  · have effect := query.proceeds_happen event registry
    generalize query.happen event registry = happened at effect
    cases effect with
    | nothing | written writing => exact List.Subset.refl _
    | ends result underWay handed => exact List.filter_subset_self _
  · rintro _ ⟨registry, rfl, heard⟩
    have effect := query.proceeds_happen event registry
    generalize query.happen event registry = happened at effect
    cases effect with
    | nothing | written writing => exact ⟨rfl, fun _ same => nomatch same⟩
    | ends result underWay handed =>
      refine ⟨rfl, fun other same message is => ?_⟩
      obtain rfl := Option.some.inj same
      exact heard _ message (handed message is)

end

/-! ## Inquiries -/

/-- All servers of the `inquiry` are within the `horizon`. -/
def Serves (horizon : Horizon) (inquiry : Inquiry) : Prop :=
  ∀ server ∈ inquiry.rota.servers, horizon.Reaches server

/-- The server that is asked, and all others of the inquiry, are within the `horizon`. -/
structure Sees (horizon : Horizon) (type : RecordType) (asked : Asked) : Prop where
  server : horizon.Reaches asked.query.server
  serves : horizon.Serves asked.inquiry
  type : asked.inquiry.type = type

theorem keeps_askServer (inquiry : Inquiry) (serves : horizon.Serves inquiry) {server : Endpoint}
    (reaches : horizon.Reaches server) :
    horizon.Keeps (inquiry.askServer server) (WhenOk (horizon.Sees inquiry.type)) := by
  refine (keeps_ask reaches _ _).bind fun asking own => .pure ?_
  cases asking with
  | error failure => exact whenOk_error
  | ok query => exact whenOk_ok.mpr ⟨own query rfl ▸ reaches, serves, rfl⟩

theorem keeps_askNext (inquiry : Inquiry) (serves : horizon.Serves inquiry) :
    horizon.Keeps inquiry.askNext (WhenOk (horizon.Sees inquiry.type)) := by
  unfold Inquiry.askNext
  split
  · rename_i server rota turn
    obtain ⟨member, same, -⟩ := Rota.turn?_eq_some turn
    have further : horizon.Serves { inquiry with rota := rota } := by
      unfold Serves
      rwa [same]
    exact keeps_askServer _ further (serves server member)
  · exact .pure whenOk_error

theorem keeps_retry {inquiry : Inquiry} (serves : horizon.Serves inquiry) (failure : Failure) :
    horizon.Keeps (inquiry.retry failure) (WhenOk (horizon.Sees inquiry.type)) :=
  keeps_askNext { inquiry with lastFailure := some failure } serves

theorem keeps_evaluate {inquiry : Inquiry} (serves : horizon.Serves inquiry) {result : Settlement}
    (heard : WhenOk horizon.Heard result) :
    horizon.Keeps (inquiry.evaluate result) fun evaluation =>
      (∀ response, evaluation = .response response → horizon.Heard response) ∧
        ∀ asked, evaluation = .again asked → horizon.Sees inquiry.type asked := by
  unfold Inquiry.evaluate
  cases used : Inquiry.usable result with
  | ok response =>
    have same := Inquiry.eq_of_usable used
    refine (keeps_learn response).bind fun _ _ => .pure ⟨?_, fun _ => nofun⟩
    rintro _ ⟨⟩
    exact heard response same
  | error failure =>
    dsimp only
    split
    · refine (keeps_retry serves failure).bind fun retried sees => ?_
      cases retried with
      | ok asked =>
        refine .pure ⟨fun _ => nofun, ?_⟩
        rintro _ ⟨⟩
        exact sees asked rfl
      | error failure => exact .pure ⟨fun _ => nofun, fun _ => nofun⟩
    · exact .pure ⟨fun _ => nofun, fun _ => nofun⟩

/-! ## Passes -/

/-- How a pass for a `type` goes on: its `Answer` is of the type, or it asks servers within the
`horizon`. -/
def Bears (horizon : Horizon) (type : RecordType) : Turn → Prop
  | .finished result => type ≠ .any → WhenOk (Answer.IsOf type) result
  | .asked asked => horizon.Sees type asked

theorem bears_ofInquiry {type : RecordType} {result : Except Failure Asked}
    (sees : WhenOk (horizon.Sees type) result) : horizon.Bears type (.ofInquiry result) := by
  cases result with
  | ok asked => exact sees asked rfl
  | error failure => exact fun _ => whenOk_error

open Pass

theorem keeps_begin (name : Name) (type : RecordType) (depth : Nat) :
    horizon.Keeps (begin name type depth) (horizon.Bears type) := by
  refine (keeps_consultCache name type).bind fun known finds => ?_
  cases known with
  | hit result => exact .pure fun single => finds single result rfl
  | miss name =>
    refine (keeps_serversAround name).bind fun around reaches => ?_
    exact (keeps_askNext ⟨type, depth, name, around.2, around.1, none⟩ reaches).bind
      fun _ sees => .pure (bears_ofInquiry sees)

/-! ### Gathering addresses of servers -/

/-- All addresses of the `glue` are known. -/
abbrev Glues (horizon : Horizon) (glue : List RecordSet) : Prop :=
  ∀ set ∈ glue, set.Tells horizon.Knows

/-- The `types` are looked up. -/
abbrev LooksUp (horizon : Horizon) (types : List RecordType) : Prop :=
  types ⊆ horizon.settings.preference.types

/-- What has been gathered is known, and what is still to be looked up is of a family that is looked
up. -/
def Gathers (horizon : Horizon) : Gathered → Prop
  | .complete glue => horizon.Glues glue
  | .waiting asked glue _ types => horizon.Glues glue ∧ horizon.LooksUp types ∧
      ∃ type ∈ horizon.settings.preference.types, horizon.Sees type asked

theorem glues_of_takeIn? {server : Name} {glue taken : List RecordSet} {type : RecordType}
    {result : Except Failure Answer} (looked : type ∈ horizon.settings.preference.types)
    (bears : horizon.Bears type (.finished result)) (glues : horizon.Glues glue)
    (takes : takeIn? server glue result = some taken) : horizon.Glues taken := by
  have single : type ≠ .any := (Preference.isAddress_of_mem looked).ordinary.2.1
  unfold takeIn? at takes
  split at takes
  · rename_i answer
    obtain rfl := Option.some.inj takes
    refine List.forall_mem_append.mpr ⟨glues, fun set member => ?_⟩
    obtain ⟨own, among, rfl⟩ := List.mem_map.mp member
    exact tells_of_isOf looked (bears single answer rfl) own (List.mem_filter.mp among).1
  · cases takes
  · obtain rfl := Option.some.inj takes
    exact glues

theorem keeps_gatherTypes (server : Name) (depth : Nat) {glue : List RecordSet}
    (glues : horizon.Glues glue) {types : List RecordType} (looks : horizon.LooksUp types) :
    horizon.Keeps (gatherTypes server depth glue types) horizon.Gathers := by
  induction types generalizing glue with
  | nil => exact .pure glues
  | cons type types ih =>
    obtain ⟨looked, others⟩ := List.cons_subset.mp looks
    refine (keeps_begin server type depth).bind fun turn bears => ?_
    cases turn with
    | asked asked => exact .pure ⟨glues, others, type, looked, bears⟩
    | finished result =>
      dsimp only
      cases takes : takeIn? server glue result with
      | some taken => exact ih (glues_of_takeIn? looked bears glues takes) others
      | none => exact .pure glues

theorem keeps_gatherServers {types : List RecordType} (looks : horizon.LooksUp types)
    (depth : Nat) {glue : List RecordSet} (glues : horizon.Glues glue) (servers : List Name) :
    horizon.Keeps (gatherServers types depth glue servers) fun found =>
      horizon.Gathers found.1 := by
  induction servers generalizing glue with
  | nil => exact .pure glues
  | cons server servers ih =>
    refine (keeps_gatherTypes server depth glues looks).bind fun gathered gathers => ?_
    cases gathered with
    | complete glue => exact ih gathers
    | waiting asked glue server types => exact .pure gathers

/-- The servers and the addresses of the `referral` are known. -/
abbrev Hears (horizon : Horizon) (referral : Referral) : Prop :=
  referral.servers.Tells horizon.Knows

theorem keeps_redirect (inquiry : Inquiry) {referral : Referral} (hears : horizon.Hears referral)
    {glue : List RecordSet} (glues : horizon.Glues glue) :
    horizon.Keeps (redirect inquiry referral glue) (horizon.Bears inquiry.type) := by
  refine keeps_settings.bind fun settings _ => ?_
  have adds : horizon.Keeps (Session.onResolver (Resolver.onDelegations
      (Delegations.add referral.servers glue))) fun _ => True :=
    keeps_onDelegations fun now => .of_state fun delegations stores =>
      Delegations.stores_add stores hears glues now
  refine adds.bind fun _ _ => ?_
  dsimp only
  split
  · exact .pure fun _ => whenOk_error
  · refine Op.Keeps.bind (keeps_askNext _ fun server member => ?_) fun _ sees =>
      .pure (bears_ofInquiry sees)
    obtain ⟨address, among, rfl⟩ := List.mem_map.mp member
    obtain ⟨set, own, datum, part, gives⟩ := RecordSet.mem_addresses.mp among
    refine .inr ?_
    rw [Endpoint.address_ofAddress]
    exact glues set (List.mem_filter.mp own).1 datum part address gives

/-! ### Nested passes -/

/-- The pass that waits for the address of a server goes on with servers within the `horizon`. -/
structure Waits (horizon : Horizon) (gathering : Gathering) : Prop where
  serves : horizon.Serves gathering.inquiry
  hears : horizon.Hears gathering.referral
  glues : horizon.Glues gathering.glue
  looks : horizon.LooksUp gathering.types

/-- Around a pass for a `type` there are passes that wait for addresses of this type. -/
def Around (horizon : Horizon) (type : RecordType) : List Gathering → Prop
  | [] => True
  | gathering :: outer => type ∈ horizon.settings.preference.types ∧ horizon.Waits gathering ∧
      Around horizon gathering.inquiry.type outer

/-- A pass for a `type` goes on, or waits for one inside it that asks servers within the
`horizon`. -/
inductive Leads (horizon : Horizon) (type : RecordType) : Turn × List Gathering → Prop
  | own {turn : Turn} (bears : horizon.Bears type turn) : Leads horizon type (turn, [])
  | opens {asked : Asked} {gathering : Gathering} {inner : RecordType}
    (sees : horizon.Sees inner asked) (looked : inner ∈ horizon.settings.preference.types)
    (waits : horizon.Waits gathering) (is : gathering.inquiry.type = type) :
    Leads horizon type (.asked asked, [gathering])

/-- The query of the `pass`, and all servers that it or the passes around it may come to ask, are
within the `horizon`. -/
def Confines (horizon : Horizon) (pass : Pass) : Prop :=
  ∃ type, horizon.Sees type pass.asked ∧ horizon.Around type pass.outer

theorem keeps_takeUp {inquiry : Inquiry} (serves : horizon.Serves inquiry) {referral : Referral}
    (hears : horizon.Hears referral) {gathered : Gathered × List Name}
    (gathers : horizon.Gathers gathered.1) :
    horizon.Keeps (takeUp inquiry referral gathered) (horizon.Leads inquiry.type) := by
  obtain ⟨glue | ⟨asked, glue, server, types⟩, servers⟩ := gathered
  · exact (keeps_redirect inquiry hears gathers).bind fun turn bears => .pure (.own bears)
  · obtain ⟨glues, looks, type, looked, sees⟩ := gathers
    exact .pure (.opens sees looked ⟨serves, hears, glues, looks⟩ rfl)

theorem keeps_regather {gathering : Gathering} (waits : horizon.Waits gathering)
    {type : RecordType} (looked : type ∈ horizon.settings.preference.types)
    {result : Except Failure Answer} (bears : horizon.Bears type (.finished result)) :
    horizon.Keeps (regather gathering result) fun found => horizon.Gathers found.1 := by
  have others {glue : List RecordSet} (glues : horizon.Glues glue) : horizon.Keeps (do
      gatherServers (← Session.settings).preference.types (gathering.inquiry.depth + 1) glue
        gathering.servers) fun found => horizon.Gathers found.1 :=
    keeps_settings.bind fun settings same =>
      keeps_gatherServers (by rw [same]; exact List.Subset.refl _) _ glues _
  unfold regather
  cases takes : takeIn? gathering.server gathering.glue result with
  | none => exact others waits.glues
  | some taken =>
    have glues := glues_of_takeIn? looked bears waits.glues takes
    refine (keeps_gatherTypes _ _ glues waits.looks).bind fun gathered gathers => ?_
    cases gathered with
    | complete glue => exact others gathers
    | waiting asked glue server types => exact .pure gathers

theorem keeps_unwind {turn : Turn} {type : RecordType} (bears : horizon.Bears type turn)
    {outer : List Gathering} (around : horizon.Around type outer) :
    horizon.Keeps (unwind turn outer) fun progress =>
      ∀ pass ∈ progress.passes, horizon.Confines pass := by
  induction outer generalizing turn type with
  | nil =>
    cases turn with
    | finished result => exact .pure (List.forall_mem_nil _)
    | asked asked => exact .pure (List.forall_mem_singleton.mpr ⟨type, bears, trivial⟩)
  | cons gathering outer ih =>
    cases turn with
    | asked asked => exact .pure (List.forall_mem_singleton.mpr ⟨type, bears, around⟩)
    | finished result =>
      -- The pass around takes in the result, and goes on or opens another pass.
      obtain ⟨looked, waits, around⟩ := around
      refine (keeps_regather waits looked bears).bind fun found gathers => ?_
      refine (keeps_takeUp waits.serves waits.hears gathers).bind fun next leads => ?_
      cases leads with
      | @own turn bears =>
        cases turn with
        | asked asked => exact .pure (List.forall_mem_singleton.mpr ⟨_, bears, around⟩)
        | finished result => exact ih bears around
      | @opens asked inner type sees looked waits is =>
        exact .pure (List.forall_mem_singleton.mpr ⟨type, sees, looked, waits, is ▸ around⟩)

theorem keeps_start (name : Name) (type : RecordType) :
    horizon.Keeps (start name type) fun progress =>
      ∀ pass ∈ progress.passes, horizon.Confines pass :=
  (keeps_begin name type 0).bind fun _ bears => keeps_unwind bears trivial

/-! ### Settled queries -/

theorem keeps_refer {inquiry : Inquiry} (serves : horizon.Serves inquiry) {referral : Referral}
    (hears : horizon.Hears referral) (glues : horizon.Glues referral.glue) :
    horizon.Keeps (refer inquiry referral) (horizon.Leads inquiry.type) := by
  unfold refer
  refine keeps_settings.bind fun settings same => ?_
  have looks : horizon.LooksUp settings.preference.types := by
    rw [same]
    exact List.Subset.refl _
  exact (keeps_gatherServers looks _ glues _).bind fun _ gathers => keeps_takeUp serves hears gathers

theorem keeps_chase {type : RecordType} {asked : Asked} (sees : horizon.Sees type asked)
    (target : Name) : horizon.Keeps (chase asked target) (horizon.Bears type) := by
  obtain ⟨server, serves, rfl⟩ := sees
  have marks : horizon.Keeps (modify fun session => { session with
      allowance := { session.allowance with chased := true } }) fun _ => True :=
    .of_state fun _ => id
  unfold chase
  refine Op.Keeps.get.bind fun session _ => ?_
  split
  · exact .pure fun _ => whenOk_error
  refine marks.bind fun _ _ => (keeps_consultCache target asked.inquiry.type).bind fun known finds =>
    ?_
  cases known with
  | hit result => exact .pure fun single => finds single result rfl
  | miss target =>
    exact (keeps_askServer { asked.inquiry with name := target } serves server).bind
      fun _ sees => .pure (bears_ofInquiry sees)

theorem keeps_react {type : RecordType} {asked : Asked} (sees : horizon.Sees type asked)
    {response : Message} (heard : horizon.Heard response) :
    horizon.Keeps (react asked response) (horizon.Leads type) := by
  have same := sees.type
  unfold react
  dsimp only
  cases meant : Outcome.classify response asked.inquiry.name asked.inquiry.type with
  | answer answer =>
    have isOf := Outcome.isOf_classify meant
    rw [same] at isOf
    exact .pure (.own fun _ => whenOk_ok.mpr isOf)
  | nxDomain => exact .pure (.own fun _ => whenOk_error)
  | noData => exact .pure (.own fun _ => whenOk_error)
  | «alias» target =>
    exact (keeps_chase sees target).bind fun _ bears => .pure (.own bears)
  | referral referral =>
    obtain ⟨hears, glues⟩ := tells_of_classify heard meant
    dsimp only
    rw [← same]
    split
    · exact keeps_refer sees.serves hears glues
    · exact (keeps_retry sees.serves _).bind fun _ retried =>
        .pure (.own (bears_ofInquiry retried))

theorem keeps_conclude {type : RecordType} {asked : Asked} (sees : horizon.Sees type asked)
    {result : Settlement} (heard : WhenOk horizon.Heard result) :
    horizon.Keeps (conclude asked result) (horizon.Leads type) := by
  unfold conclude
  refine (keeps_evaluate sees.serves heard).bind fun evaluation ⟨answers, retries⟩ => ?_
  cases evaluation with
  | response response => exact keeps_react sees (answers response rfl)
  | again next => exact .pure (.own (sees.type ▸ retries next rfl))
  | failed failure => exact .pure (.own fun _ => whenOk_error)

/-- A `pass` within the `horizon` stays within it. -/
theorem keeps_resume {pass : Pass} (confines : horizon.Confines pass) (event : Event) :
    horizon.Keeps (pass.resume event) fun progress =>
      ∀ next ∈ progress.passes, horizon.Confines next := by
  obtain ⟨type, sees, around⟩ := confines
  unfold resume
  refine (keeps_happen pass.asked.query event).bind fun ⟨settled, query⟩ ⟨own, heard⟩ => ?_
  cases settled with
  | none =>
    have waits : horizon.Sees type { pass.asked with query := query } :=
      { sees with server := own ▸ sees.server }
    exact .pure (List.forall_mem_singleton.mpr ⟨type, waits, around⟩)
  | some result =>
    refine (keeps_conclude sees (heard result rfl)).bind fun next leads => ?_
    cases leads with
    | own bears => exact keeps_unwind bears around
    | @opens next gathering inner sees looked waits is =>
      have bears : horizon.Bears inner (.asked next) := sees
      exact keeps_unwind bears ⟨looked, waits, is ▸ around⟩

/-! ## Calls -/

theorem keeps_beginQuestion (name : Name) (type : RecordType) :
    horizon.Keeps (Call.beginQuestion name type) fun activity =>
      ∀ pass ∈ activity.passes, horizon.Confines pass := by
  unfold Call.beginQuestion
  refine keeps_configuredRota.bind fun rota reaches => ?_
  refine (keeps_askNext ⟨type, 0, name.toAbsolute, rota, .root, none⟩ reaches).bind
    fun result sees => .pure ?_
  cases result with
  | ok asked => exact List.forall_mem_singleton.mpr ⟨type, sees asked rfl, trivial⟩
  | error failure => exact List.forall_mem_nil _

theorem keeps_resumeQuestion {asked : Asked} (confines : horizon.Confines ⟨asked, []⟩)
    (event : Event) :
    horizon.Keeps (Call.resumeQuestion asked event) fun activity =>
      ∀ pass ∈ activity.passes, horizon.Confines pass := by
  obtain ⟨type, sees, -⟩ := confines
  unfold Call.resumeQuestion
  refine (keeps_happen asked.query event).bind fun ⟨settled, query⟩ ⟨own, heard⟩ => ?_
  cases settled with
  | none =>
    have waits : horizon.Sees type { asked with query := query } :=
      { sees with server := own ▸ sees.server }
    exact .pure (List.forall_mem_singleton.mpr ⟨type, waits, trivial⟩)
  | some result =>
    refine (keeps_evaluate sees.serves (heard result rfl)).bind
      fun evaluation ⟨answers, retries⟩ => ?_
    cases evaluation with
    | again next =>
      exact .pure (List.forall_mem_singleton.mpr ⟨_, retries next rfl, trivial⟩)
    | response response => exact .pure (List.forall_mem_nil _)
    | failed failure => exact .pure (List.forall_mem_nil _)

theorem Bounds.drop_pass {resolver : Resolver} (bounds : horizon.Bounds resolver) (pass : Pass) :
    horizon.Bounds (pass.drop resolver).2 :=
  { bounds with replies := fun serial message member =>
      bounds.replies serial message (Query.fewer_drop.2 member) }

/-- The resolver and all passes under way are within the `horizon`, and calls keep them there. -/
def conduct (horizon : Horizon) : Conduct where
  Holds passes resolver := horizon.Bounds resolver ∧ ∀ pass ∈ passes, horizon.Confines pass
  perm same holds := ⟨holds.1, fun pass member => holds.2 pass (same.mem_iff.mpr member)⟩
  start rest name type :=
    ((keeps_start name type).frame (∀ pass ∈ rest, horizon.Confines pass)).weaken
      fun _ _ ⟨⟨bounds, own⟩, others⟩ => ⟨bounds, List.forall_mem_append.mpr ⟨own, others⟩⟩
  resume rest pass event := by
    rintro session ⟨bounds, confines⟩
    obtain ⟨own, others⟩ := List.forall_mem_cons.mp confines
    refine ((keeps_resume own event).frame (∀ other ∈ pass :: rest, horizon.Confines other)).weaken
      (fun _ _ ⟨⟨bounds, next⟩, _⟩ => ?_) session ⟨bounds, confines⟩
    exact ⟨bounds, List.forall_mem_append.mpr ⟨next, others⟩⟩
  question rest name type :=
    ((keeps_beginQuestion name type).frame (∀ pass ∈ rest, horizon.Confines pass)).weaken
      fun _ _ ⟨⟨bounds, own⟩, others⟩ => ⟨bounds, List.forall_mem_append.mpr ⟨own, others⟩⟩
  answer rest asked event := by
    rintro session ⟨bounds, confines⟩
    obtain ⟨own, others⟩ := List.forall_mem_cons.mp confines
    refine ((keeps_resumeQuestion own event).frame
      (∀ other ∈ ⟨asked, []⟩ :: rest, horizon.Confines other)).weaken
      (fun _ _ ⟨⟨bounds, next⟩, _⟩ => ?_) session ⟨bounds, confines⟩
    exact ⟨bounds, List.forall_mem_append.mpr ⟨next, others⟩⟩
  drop pass holds := ⟨holds.1.drop_pass pass, (List.forall_mem_cons.mp holds.2).2⟩

end Horizon

end NameResolution
