import NameResolution.Proofs.Resolution.Courses
import NameResolution.Proofs.Resolution.Families
import NameResolution.Proofs.Resolution.Horizons

/-!
# Rotating servers

If the configured servers rotate, every pass that comes to them starts with the next one. A lookup of
a host starts a pass for each family of addresses that is looked up.

* `Resolver.Turned`: how often the configured servers were used. Passes that have been started keep
  to it (`Pass.steady_conclude`), as long as they are not referred to other servers.
* `Pass.turns_start`: a pass for a name that nothing is known about asks the server whose turn it is.
* `Call.Plain`: what a lookup meets that is answered directly. `Call.Stage`: how far it has come.
  `Call.stage_of_course`: it goes from stage to stage.
-/

namespace NameResolution

/-- The `settings` of a `resolver`, and how often it has used its configured servers. -/
structure Resolver.Turned (settings : Settings) (rotation : Nat) (resolver : Resolver) : Prop where
  settings : resolver.settings = settings
  rotation : resolver.rotation = rotation

section

variable {settings : Settings} {rotation : Nat}

/-- The operation `op` does not use the configured servers anew, so `rotation` stays. -/
abbrev Session.Steady {α : Type} (settings : Settings) (rotation : Nat) (op : Op Session α)
    (P : α → Prop) : Prop :=
  Op.Keeps (fun session => session.resolver.Turned settings rotation) op P

namespace Session

variable {α : Type} {P : α → Prop}

theorem Steady.any {op : Op Session α} (steady : Steady settings rotation op P) :
    Steady settings rotation op fun _ => True := steady.imp fun _ _ => trivial

theorem steady_get : Steady settings rotation (get : Op Session Session) fun _ => True :=
  Op.Keeps.get.imp fun _ _ => trivial

theorem steady_onRegistry (op : StateM Registry α) :
    Steady settings rotation (withResolver (Resolver.onRegistry op)) fun _ => True :=
  .of_state fun _ turned => ⟨turned.settings, turned.rotation⟩

theorem steady_consultCache (name : Name) (type : RecordType) :
    Steady settings rotation (consultCache name type) fun _ => True :=
  .of_state fun _ turned => ⟨turned.settings, turned.rotation⟩

theorem steady_learn (response : Message) :
    Steady settings rotation (learn response) fun _ => True :=
  .of_state fun session turned => by
    obtain ⟨cache, same⟩ := resolver_learn response session
    rw [same]
    exact ⟨turned.settings, turned.rotation⟩

theorem steady_send (query : Query) :
    Steady settings rotation (send query) fun _ => True :=
  .of_state fun session turned => by
    simp only [send, Op.bind_apply, Op.get_apply]
    generalize (Query.begin session.resolver.hook).runOn query = begun
    obtain ⟨_ | octets, begun⟩ := begun
    · exact ⟨turned.settings, turned.rotation⟩
    · exact ⟨turned.settings, turned.rotation⟩

theorem steady_takeQuery : Steady settings rotation takeQuery fun _ => True :=
  .of_state fun session turned => by
    obtain refused | ⟨budget, taken, -⟩ := takeQuery_spec session
    · rwa [refused]
    · rwa [taken]

theorem steady_ask (server : Endpoint) (name : Name) (type : RecordType) :
    Steady settings rotation (ask server name type) fun _ => True := by
  unfold ask
  refine steady_get.bind fun session _ => ?_
  split
  · exact .pure trivial
  refine steady_takeQuery.bind fun taken _ => ?_
  split
  · refine (steady_onRegistry _).bind fun registered _ => ?_
    cases registered with
    | error failure => exact .pure trivial
    | ok query => exact (steady_send query).bind fun _ _ => .pure trivial
  · exact .pure trivial

theorem outbox_of_send {query sent : Query} {before after : Session}
    (ran : send query before = (.ok sent, after)) : ∃ datagram : Datagram,
      datagram.server = query.server ∧
        after.resolver.outbox = before.resolver.outbox ++ [datagram] := by
  simp only [send, Op.bind_apply, Op.get_apply] at ran
  obtain ⟨-, begun⟩ | ⟨-, ⟨misuse, begun⟩ | ⟨octets, begun⟩⟩ :=
    Query.begin_cases before.resolver.hook query <;> rw [begun] at ran <;> cases ran
  exact ⟨⟨query.server, octets, query.serial⟩, rfl, rfl⟩

/-- The `query` that comes of asking a `server` is put into the `outbox`, for this server. -/
theorem outbox_of_ask {server : Endpoint} {name : Name} {type : RecordType} {query : Query}
    {before after : Session} (ran : ask server name type before = (.ok (.ok query), after)) :
    ∃ datagram : Datagram, datagram.server = server ∧
      after.resolver.outbox = before.resolver.outbox ++ [datagram] := by
  obtain ⟨session, _, got, ran⟩ := Op.bind_eq_ok.mp ran
  cases got
  by_cases closed : before.resolver.closed = true
  · rw [if_pos closed] at ran
    cases ran
  rw [if_neg closed] at ran
  obtain ⟨taken, middle, takes, ran⟩ := Op.bind_eq_ok.mp ran
  have same : middle.resolver = before.resolver := by
    obtain refused | ⟨budget, taken, -⟩ := takeQuery_spec before
    · rw [refused] at takes
      cases takes
      rfl
    · rw [taken] at takes
      cases takes
      rfl
  cases taken with
  | false => cases ran
  | true =>
    obtain ⟨registered, registering, registers, ran⟩ := Op.bind_eq_ok.mp ran
    cases registered with
    | error failure => cases ran
    | ok fresh =>
      have own := (Query.register_spec server (.internet name type) middle.resolver.registry).2
        fresh (Except.ok.inj (Prod.mk.inj registers).1)
      have quiet : registering.resolver.outbox = middle.resolver.outbox := by
        rw [← (Prod.mk.inj registers).2]
      obtain ⟨sent, _, sends, rest⟩ := Op.bind_eq_ok.mp ran
      cases rest
      obtain ⟨datagram, addressed, outbox⟩ := outbox_of_send sends
      exact ⟨datagram, addressed.trans own, by rw [outbox, quiet, same]⟩

end Session

/-! ## Passes under way -/

namespace Inquiry

theorem steady_askServer (inquiry : Inquiry) (server : Endpoint) :
    Session.Steady settings rotation (inquiry.askServer server) fun _ => True :=
  (Session.steady_ask _ _ _).bind fun _ _ => .pure trivial

theorem steady_askNext (inquiry : Inquiry) :
    Session.Steady settings rotation inquiry.askNext fun _ => True := by
  unfold askNext
  split
  · exact steady_askServer _ _
  · exact .pure trivial

theorem steady_evaluate (inquiry : Inquiry) (result : Settlement) :
    Session.Steady settings rotation (inquiry.evaluate result) fun evaluation =>
      ∀ response, evaluation = .response response → usable result = .ok response := by
  unfold evaluate
  cases used : usable result with
  | ok response =>
    refine (Session.steady_learn response).bind fun _ _ => .pure fun other same => ?_
    rw [Evaluation.response.inj same]
  | error failure =>
    dsimp only
    split
    · refine (steady_askNext _).bind fun retried _ => ?_
      cases retried with
      | ok asked => exact .pure nofun
      | error failure => exact .pure nofun
    · exact .pure nofun

end Inquiry

/-- The end of a query of the inquiry, `result`, is not a referral to other servers. -/
def Inquiry.Stays (inquiry : Inquiry) (result : Settlement) : Prop :=
  ∀ response referral, usable result = .ok response →
    Outcome.classify response inquiry.name inquiry.type ≠ .referral referral

/-- The end of a query of the inquiry, `result`, is a response with addresses that are asked for. -/
def Inquiry.IsAnsweredBy (inquiry : Inquiry) (result : Settlement) : Prop :=
  ∃ response answer, usable result = .ok response ∧
    Outcome.classify response inquiry.name inquiry.type = .answer answer ∧ answer.addresses ≠ []

theorem Inquiry.IsAnsweredBy.stays {inquiry : Inquiry} {result : Settlement}
    (answered : inquiry.IsAnsweredBy result) : inquiry.Stays result := by
  obtain ⟨response, answer, used, meant, -⟩ := answered
  intro other referral used' refers
  obtain rfl := Except.ok.inj (used.symm.trans used')
  cases meant.symm.trans refers

namespace Pass

theorem steady_chase (asked : Asked) (target : Name) :
    Session.Steady settings rotation (chase asked target) fun _ => True := by
  unfold chase
  refine Session.steady_get.bind fun session _ => ?_
  split
  · exact .pure trivial
  have marks : Session.Steady settings rotation (modify fun session => { session with
      allowance := { session.allowance with chased := true } }) fun _ => True :=
    .of_state fun _ turned => turned
  refine marks.bind fun _ _ => (Session.steady_consultCache _ _).bind fun known _ => ?_
  cases known with
  | hit result => exact .pure trivial
  | miss target => exact (Inquiry.steady_askServer _ _).bind fun _ _ => .pure trivial

/-- A pass whose `result` is not a referral goes on with the servers that it has. -/
theorem steady_conclude {asked : Asked} {result : Settlement}
    (stays : asked.inquiry.Stays result) :
    Session.Steady settings rotation (conclude asked result) (·.2 = []) := by
  refine (asked.inquiry.steady_evaluate result).bind fun evaluation used => ?_
  cases evaluation with
  | again next => exact .pure rfl
  | failed failure => exact .pure rfl
  | response response =>
    have meant (referral : Referral) := stays response referral (used response rfl)
    dsimp only [react]
    split
    · exact .pure rfl
    · exact .pure rfl
    · exact .pure rfl
    · exact (steady_chase _ _).bind fun _ _ => .pure rfl
    · rename_i referral refers
      exact absurd refers (meant referral)

theorem steady_unwind_nil (turn : Turn) :
    Session.Steady settings rotation (unwind turn []) fun progress =>
      ∀ pass, progress = .waiting pass → pass.outer = [] := by
  cases turn with
  | finished result => exact .pure fun pass same => by cases same
  | asked asked =>
    refine .pure fun pass same => ?_
    rw [← Progress.waiting.inj same]

/-- A `pass` that waits for none inside it, and is not referred to other servers, does not use the
configured servers anew. -/
theorem steady_resume {pass : Pass} (alone : pass.outer = []) {event : Event}
    {before after : Session} {progress : Progress}
    (turned : before.resolver.Turned settings rotation)
    (stays : ∀ result, (pass.asked.query.happen event before.resolver.registry).1.1 = some result →
      pass.asked.inquiry.Stays result)
    (ran : pass.resume event before = (.ok progress, after)) :
    after.resolver.Turned settings rotation ∧
      ∀ next, progress = .waiting next → next.outer = [] := by
  obtain ⟨-, rfl, rfl⟩ | ⟨result, next, session, settled, concluded, unwound⟩ := resume_cases ran
  · refine ⟨⟨turned.settings, turned.rotation⟩, fun next same => ?_⟩
    rw [← Progress.waiting.inj same]
    exact alone
  · obtain ⟨turned, inner⟩ := (steady_conclude (stays result settled)).ensures _
      (by exact ⟨turned.settings, turned.rotation⟩) _ _ concluded
    rw [inner, alone, List.nil_append] at unwound
    exact (steady_unwind_nil next.1).ensures _ turned _ _ unwound

/-- A `query` that is answered ends its `pass` with `addresses`. -/
theorem answer_of_resume {pass : Pass} (alone : pass.outer = []) {event : Event}
    {before after : Session} {outcome : Except Failure Answer}
    (answered : ∀ result,
      (pass.asked.query.happen event before.resolver.registry).1.1 = some result →
        pass.asked.inquiry.IsAnsweredBy result)
    (ran : pass.resume event before = (.ok (.finished outcome), after)) :
    ∃ answer, outcome = .ok answer ∧ answer.addresses ≠ [] := by
  obtain ⟨-, -, waits⟩ | ⟨result, next, session, settled, concluded, unwound⟩ := resume_cases ran
  · cases waits
  obtain ⟨response, answer, used, meant, some⟩ := answered result settled
  obtain ⟨evaluation, middle, evaluated, reacted⟩ := Op.bind_eq_ok.mp concluded
  rw [Inquiry.evaluate, used] at evaluated
  obtain ⟨_, _, -, given⟩ := Op.bind_eq_ok.mp evaluated
  cases given
  simp only [react, meant] at reacted
  cases reacted
  rw [alone] at unwound
  cases unwound
  exact ⟨answer, rfl, some⟩

end Pass

/-! ## Passes that begin -/

theorem Rota.turn?_rounds {servers : List Endpoint} {offset count : Nat} {server : Endpoint}
    {next : Rota} (turn : (rounds servers offset count).turn? = some (server, next)) :
    servers[offset % servers.length]? = some server := by
  unfold turn? rounds at turn
  split at turn
  · obtain ⟨other, here, same⟩ := Option.map_eq_some_iff.mp turn
    obtain ⟨rfl, -⟩ := Prod.mk.inj same
    rwa [Nat.mod_mod] at here
  · cases turn

/-- Nothing is known about a `name` and a `type`: neither has the cache anything to go by, nor has a
referral told about servers. -/
structure Resolver.Unversed (resolver : Resolver) (name : Name) (type : RecordType) : Prop where
  cache : (Session.followCached type resolver.now Session.cachedAliases name resolver.cache).1 =
    .ok (.miss name)
  servers : (Delegations.serversFor name resolver.settings.port resolver.now
    resolver.delegations).1 = .ok none

theorem Resolver.configuredRota_of_rotates {resolver : Resolver}
    (rotates : resolver.settings.rotate = true) :
    configuredRota resolver =
      (.rounds resolver.settings.servers resolver.rotation resolver.settings.attempts,
        { resolver with rotation := resolver.rotation + 1 }) := by
  simp [configuredRota, rotates]

/-- Where no referral has told about `servers`, those that are configured are asked, beginning with
the one whose turn it is. -/
theorem Session.serversAround_of_unknown {name : Name} {before : Session}
    (rotates : before.resolver.settings.rotate = true)
    (unknown : (Delegations.serversFor name before.resolver.settings.port before.resolver.now
      before.resolver.delegations).1 = .ok none) : ∃ delegations,
    serversAround name before =
      (.ok (.root, .rounds before.resolver.settings.servers before.resolver.rotation
        before.resolver.settings.attempts),
      { before with resolver := { before.resolver with
          delegations := delegations
          rotation := before.resolver.rotation + 1 } }) := by
  obtain ⟨resolver, allowance⟩ := before
  have consults : onResolver (Resolver.onDelegations
      (Delegations.serversFor name resolver.settings.port)) ⟨resolver, allowance⟩ =
      (.ok none, ⟨{ resolver with delegations := (Delegations.serversFor name resolver.settings.port
        resolver.now resolver.delegations).2 }, allowance⟩) := Prod.ext unknown rfl
  refine ⟨(Delegations.serversFor name resolver.settings.port resolver.now
    resolver.delegations).2, ?_⟩
  refine Op.bind_eq_ok.mpr ⟨_, _, rfl, Op.bind_eq_ok.mpr ⟨_, _, consults, ?_⟩⟩
  refine Op.bind_eq_ok.mpr ⟨_, _, ?_, rfl⟩
  rw [withResolver_apply, Resolver.configuredRota_of_rotates (by exact rotates)]

/-- An `inquiry` with `servers` to ask fails, or puts its question to the first one. -/
theorem Inquiry.outbox_of_askNext {inquiry : Inquiry} {servers : List Endpoint}
    {offset count : Nat} (rota : inquiry.rota = .rounds servers offset count)
    {before after : Session} {result : Except Failure Asked}
    (ran : inquiry.askNext before = (.ok result, after)) :
    (∃ failure, result = .error failure) ∨ ∃ asked, result = .ok asked ∧
      ∃ datagram : Datagram, after.resolver.outbox = before.resolver.outbox ++ [datagram] ∧
        servers[offset % servers.length]? = some datagram.server := by
  unfold askNext at ran
  cases turn : inquiry.rota.turn? with
  | none =>
    rw [turn] at ran
    cases ran
    exact .inl ⟨_, rfl⟩
  | some next =>
    obtain ⟨server, rest⟩ := next
    rw [turn] at ran
    obtain ⟨asking, middle, asks, given⟩ := Op.bind_eq_ok.mp ran
    cases given
    cases asking with
    | error failure => exact .inl ⟨failure, rfl⟩
    | ok query =>
      obtain ⟨datagram, addressed, outbox⟩ := Session.outbox_of_ask asks
      rw [rota] at turn
      exact .inr ⟨_, rfl, datagram, outbox, addressed ▸ Rota.turn?_rounds turn⟩

namespace Pass

/-- A pass for a `name` that nothing is known about puts its question to the configured
`servers`. -/
theorem start_of_unversed {name : Name} {type : RecordType} {before : Session}
    (rotates : before.resolver.settings.rotate = true)
    (unversed : before.resolver.Unversed name type) : ∃ cache delegations,
    start name type before = (do
      unwind (.ofInquiry (← Inquiry.askNext ⟨type, 0, name, .rounds before.resolver.settings.servers
        before.resolver.rotation before.resolver.settings.attempts, .root, none⟩)) [])
      { before with resolver := { before.resolver with
          cache := cache
          delegations := delegations
          rotation := before.resolver.rotation + 1 } } := by
  obtain ⟨resolver, allowance⟩ := before
  let consulted : Resolver := { resolver with cache := (Session.followCached type resolver.now
    Session.cachedAliases name resolver.cache).2 }
  have consults : Session.consultCache name type ⟨resolver, allowance⟩ =
      (.ok (.miss name), ⟨consulted, allowance⟩) := Prod.ext unversed.cache rfl
  have unknown : (Delegations.serversFor name consulted.settings.port consulted.now
      consulted.delegations).1 = .ok none := unversed.servers
  obtain ⟨delegations, around⟩ : ∃ delegations, Session.serversAround name ⟨consulted, allowance⟩ =
      (.ok (.root, .rounds resolver.settings.servers resolver.rotation resolver.settings.attempts),
        ⟨{ consulted with delegations := delegations, rotation := resolver.rotation + 1 },
          allowance⟩) := Session.serversAround_of_unknown rotates unknown
  refine ⟨consulted.cache, delegations, ?_⟩
  simp only [start, begin, Op.bind_apply, consults, around]
  rcases Inquiry.askNext _ _ with ⟨_ | _, _⟩ <;> rfl

/-- A pass for a `name` that nothing is known about uses the configured `servers` once. If it can
ask at all, then the `server` whose turn it is. -/
theorem turns_start {name : Name} {type : RecordType} {before after : Session}
    {progress : Progress} (turned : before.resolver.Turned settings rotation)
    (rotates : settings.rotate = true) (unversed : before.resolver.Unversed name type)
    (ran : start name type before = (.ok progress, after)) :
    after.resolver.Turned settings (rotation + 1) ∧
      ((∃ failure, progress = .finished (.error failure)) ∨
        ∃ asked, progress = .waiting ⟨asked, []⟩ ∧
          ∃ datagram : Datagram, after.resolver.outbox = before.resolver.outbox ++ [datagram] ∧
            settings.servers[rotation % settings.servers.length]? = some datagram.server) := by
  obtain ⟨rfl, rfl⟩ := turned
  obtain ⟨cache, delegations, begins⟩ := start_of_unversed rotates unversed
  rw [begins] at ran
  obtain ⟨result, last, asks, unwound⟩ := Op.bind_eq_ok.mp ran
  have steady := ((Inquiry.steady_askNext _).ensures _ (by exact ⟨rfl, rfl⟩) _ _ asks).1
  obtain ⟨failure, rfl⟩ | ⟨asked, rfl, datagram, sends, addressed⟩ :=
    Inquiry.outbox_of_askNext rfl asks
  · cases unwound
    exact ⟨steady, .inl ⟨failure, rfl⟩⟩
  · cases unwound
    exact ⟨steady, .inr ⟨asked, rfl, datagram, sends, addressed⟩⟩

end Pass

/-! ## Lookups that are answered directly -/

/-- What the next step of a `call` meets if nothing is known about its host, if its first query can
be put and is answered directly, and if no other query is answered by a referral. -/
structure Call.Plain (call : Call) (resolver : Resolver) : Prop where
  unversed {lookup : HostLookup} {type : RecordType} {matters : List Matter}
    (racing : call.activity = .racing lookup) (first : call.matters = .start type :: matters) :
    resolver.Unversed lookup.race.name type
  asks {lookup : HostLookup} {matters : List Matter} {next : Call} {after : Resolver}
    (racing : call.activity = .racing lookup)
    (first : call.matters = .start lookup.race.preferred :: matters)
    (ran : call.step resolver = (.ok (some next), after)) (result : Except Failure Answer) :
    (lookup.race.preferred, .ended result) ∉ next.activity.runs
  answered {lookup : HostLookup} {serial : Nat} {event : Event} {matters : List Matter}
    {pass : Pass} {result : Settlement} (racing : call.activity = .racing lookup)
    (first : call.matters = .event serial event :: matters)
    (among : (lookup.race.preferred, .waiting pass) ∈ lookup.race.runs)
    (addressed : call.addressee? serial = some pass)
    (settled : (pass.asked.query.happen event resolver.registry).1.1 = some result) :
    pass.asked.inquiry.IsAnsweredBy result
  stays {serial : Nat} {event : Event} {matters : List Matter} {pass : Pass} {result : Settlement}
    (first : call.matters = .event serial event :: matters)
    (addressed : call.addressee? serial = some pass)
    (settled : (pass.asked.query.happen event resolver.registry).1.1 = some result) :
    pass.asked.inquiry.Stays result

/-- The `pass` waits for none inside it. If it is for the preferred type, it has not failed. -/
def Run.Alone (preferred : Prop) : Run → Prop
  | unstarted => True
  | waiting pass => pass.outer = []
  | ended result => preferred → ∃ answer, result = .ok answer ∧ answer.addresses ≠ []

/-- The first of the queries `sent` went to the server whose turn it was. -/
def Settings.BeginsAt (settings : Settings) (rotation : Nat) (sent : List Datagram) : Prop :=
  ∃ datagram, sent.head? = some datagram ∧
    settings.servers[rotation % settings.servers.length]? = some datagram.server

/-- A `race` that may be closed has found `addresses` if its preferred pass cannot have failed. -/
theorem Race.addresses_of_preferred {race : Race} (preferred : race.preferred ∈ race.types)
    (alone : ∀ run ∈ race.runs, run.2.Alone (run.1 = race.preferred))
    (ends : race.AllEnded ∨ race.isWon = true) : ∃ found, race.addresses = .ok found := by
  -- However the race may be closed, its preferred pass has ended, and it has not failed.
  obtain ⟨run, member, own, result, ended⟩ : ∃ run ∈ race.runs, run.1 = race.preferred ∧
      ∃ result, run.2 = .ended result := by
    cases ends with
    | inl all =>
      obtain ⟨run, member, own⟩ := List.mem_map.mp preferred
      have some := all run member
      rcases run with ⟨type, _ | _ | result⟩
      · cases some
      · cases some
      · exact ⟨_, member, own, result, rfl⟩
    | inr won =>
      obtain ⟨run, member, fits⟩ := List.any_eq_true.mp won
      obtain ⟨own, answered⟩ := Bool.and_eq_true_iff.mp fits
      rcases run with ⟨type, _ | _ | result⟩
      · cases answered
      · cases answered
      · exact ⟨_, member, of_decide_eq_true own, result, rfl⟩
  have kept := alone run member
  rw [ended] at kept
  obtain ⟨answer, rfl, some⟩ := kept own
  have found : race.answers.flatMap Answer.addresses ≠ [] := by
    rw [flatMap_answers]
    intro none
    have none := List.flatMap_eq_nil_iff.mp none run member
    rw [ended] at none
    exact some none
  unfold addresses
  dsimp only
  cases head : race.answers.head? with
  | none =>
    rw [List.head?_eq_none_iff.mp head] at found
    exact absurd rfl found
  | some first => exact ⟨_, if_neg fun empty => found (List.isEmpty_iff.mp empty)⟩

theorem Settings.BeginsAt.append {sent : List Datagram} (begins : settings.BeginsAt rotation sent)
    (more : List Datagram) : settings.BeginsAt rotation (sent ++ more) := by
  obtain ⟨datagram, head, addressed⟩ := begins
  exact ⟨datagram, by rw [List.head?_append, head]; rfl, addressed⟩

theorem Preference.types_eq_cons (preference : Preference) :
    ∃ others, preference.types = preference.preferred :: others := by
  cases preference <;> exact ⟨_, rfl⟩

namespace Call

/-- A `call` for a host that is answered directly, and that looks for its addresses. The configured
servers had been used so many times before. Since then they were used once for each pass that has
been started. -/
structure Underway (settings : Settings) (rotation : Nat) (call : Call) (lookup : HostLookup)
    (resolver : Resolver) (sent : List Datagram) : Prop where
  racing : call.activity = .racing lookup
  purpose : lookup.purpose = .addresses
  preferred : lookup.race.preferred = settings.preference.preferred
  types : lookup.race.types = settings.preference.types
  matters : ∃ events, call.matters = (Race.pending lookup.race.runs).map .start ++ events ∧
    ∀ matter ∈ events, ∃ serial event, matter = .event serial event
  alone : ∀ run ∈ lookup.race.runs, run.2.Alone (run.1 = lookup.race.preferred)
  turned : ∃ times, resolver.Turned settings times ∧
    times + (Race.pending lookup.race.runs).length = rotation + settings.preference.types.length
  begins : Race.pending lookup.race.runs = settings.preference.types ∧ sent = [] ∨
    settings.BeginsAt rotation sent

/-- How far such a `call` has come. -/
inductive Stage (settings : Settings) (rotation : Nat) : Call → Resolver → List Datagram → Prop
  | idle {call : Call} {resolver : Resolver} {host : String} {matters : List Matter}
    (asks : call.request = .host host) (idle : call.activity = .requested)
    (first : call.matters = .begin :: matters) (turned : resolver.Turned settings rotation) :
    Stage settings rotation call resolver []
  | racing {call : Call} {resolver : Resolver} {sent : List Datagram} {lookup : HostLookup}
    (underway : Underway settings rotation call lookup resolver sent) :
    Stage settings rotation call resolver sent
  | over {call : Call} {resolver : Resolver} {sent : List Datagram}
    {result : Except Failure Found} {times : Nat} (ended : call.activity = .over result)
    (turned : resolver.Turned settings times)
    (begins : sent = [] ∨ times = rotation + settings.preference.types.length ∧
      settings.BeginsAt rotation sent) : Stage settings rotation call resolver sent

variable {call next : Call} {resolver after : Resolver} {sent more : List Datagram}
  {lookup : HostLookup}

theorem stage_of_begins {host : String} {matters : List Matter}
    (asks : call.request = .host host) (idle : call.activity = .requested)
    (first : call.matters = .begin :: matters) (turned : resolver.Turned settings rotation)
    (ran : call.step resolver = (.ok (some next), after))
    (sends : after.outbox = resolver.outbox ++ more) : Stage settings rotation next after more := by
  obtain ⟨progress, session, began, rfl, rfl⟩ := begins_of_step asks idle first ran
  obtain ⟨rfl, races⟩ := (HostLookup.races_begin host).ensures _ rfl _ _ began
  obtain rfl : more = [] := by simpa [Call.session] using sends
  cases progress with
  | finished result => exact .over (activity_enterRace _) turned (.inl rfl)
  | racing lookup =>
    obtain ⟨name, search, rfl⟩ := races lookup rfl
    have own : (call.session resolver).resolver.settings = settings := turned.settings
    rw [own]
    have pending : Race.pending (Race.forAddresses name settings.preference).runs =
        settings.preference.types := Race.pending_new _
    have types : (Race.forAddresses name settings.preference).types =
        settings.preference.types := by
      simp [Race.types, Race.forAddresses, Race.new, Function.comp_def]
    refine .racing ⟨activity_enterRace _, rfl, rfl, types, ⟨[], ?_, List.forall_mem_nil _⟩, ?_,
      ⟨rotation, turned, by rw [pending]⟩, .inl ⟨pending, rfl⟩⟩
    · rw [pending, List.append_nil, ← types]
      rfl
    · intro run member
      obtain ⟨type, -, rfl⟩ := List.mem_map.mp member
      trivial

/-- What a pass of the `race` comes to concerns no other pass. -/
theorem Underway.alone_of_run (underway : Underway settings rotation call lookup resolver sent)
    {front back : Runs} {type : RecordType} {run later : NameResolution.Run}
    (runs : lookup.race.runs = front ++ (type, run) :: back)
    (own : later.Alone (type = lookup.race.preferred)) :
    ∀ run ∈ front ++ (type, later) :: back, run.2.Alone (run.1 = lookup.race.preferred) := by
  intro other member
  obtain rfl | among := List.mem_cons.mp (List.perm_middle.subset member)
  · exact own
  · refine underway.alone other ?_
    rw [runs]
    exact List.perm_middle.symm.subset (List.mem_cons_of_mem _ among)

theorem Underway.types_of_run (underway : Underway settings rotation call lookup resolver sent)
    {front back : Runs} {type : RecordType} {run later : NameResolution.Run}
    (runs : lookup.race.runs = front ++ (type, run) :: back) :
    (lookup.withRuns (front ++ (type, later) :: back)).race.types = settings.preference.types := by
  rw [← underway.types, Race.types, Race.types, runs]
  simp [HostLookup.withRuns]

theorem Underway.nodup (underway : Underway settings rotation call lookup resolver sent) :
    (lookup.race.runs.map Prod.fst).Nodup := by
  have distinct := settings.preference.nodup_types
  rwa [← underway.types] at distinct

/-- When no pass is `pending`, queries have been sent. -/
theorem Underway.begun (underway : Underway settings rotation call lookup resolver sent)
    (none : Race.pending lookup.race.runs = []) : settings.BeginsAt rotation sent := by
  obtain ⟨all, -⟩ | begins := underway.begins
  · obtain ⟨others, types⟩ := settings.preference.types_eq_cons
    rw [none, types] at all
    cases all
  · exact begins

/-- The pass that the first of the `matters` is to start is the next one. -/
theorem Underway.exists_left (underway : Underway settings rotation call lookup resolver sent)
    {type : RecordType} {matters : List Matter} (first : call.matters = .start type :: matters) :
    ∃ left events, Race.pending lookup.race.runs = type :: left ∧
      matters = left.map .start ++ events ∧
      ∀ matter ∈ events, ∃ serial event, matter = .event serial event := by
  obtain ⟨events, own, heard⟩ := underway.matters
  rw [first] at own
  cases pending : Race.pending lookup.race.runs with
  | nil =>
    rw [pending, List.map_nil, List.nil_append] at own
    obtain ⟨_, _, event⟩ := heard (.start type) (own ▸ List.mem_cons_self)
    cases event
  | cons other left =>
    rw [pending, List.map_cons, List.cons_append] at own
    obtain ⟨same, rest⟩ := List.cons.inj own
    obtain rfl := Matter.start.inj same
    exact ⟨left, events, rfl, rest, heard⟩

/-- The pass that is started when no other one has been is for the preferred `type`, and it is the
turn of the server that the `lookup` begins with. -/
theorem Underway.first_of_all (underway : Underway settings rotation call lookup resolver sent)
    {type : RecordType} {left : List RecordType} {times : Nat}
    (pending : Race.pending lookup.race.runs = type :: left)
    (count : times + (Race.pending lookup.race.runs).length =
      rotation + settings.preference.types.length)
    (all : Race.pending lookup.race.runs = settings.preference.types) :
    type = lookup.race.preferred ∧ times = rotation := by
  rw [all] at count
  obtain ⟨others, types⟩ := settings.preference.types_eq_cons
  rw [pending, types] at all
  exact ⟨(List.cons.inj all).1.trans underway.preferred.symm, by omega⟩

/-- The first pass is the one for the preferred `type`. It asks the server whose turn it is. -/
theorem Underway.starts (underway : Underway settings rotation call lookup resolver sent)
    (rotates : settings.rotate = true) {type : RecordType} {matters : List Matter}
    {front back : Runs} {progress : Progress} {session : Session}
    (first : call.matters = .start type :: matters)
    (unversed : resolver.Unversed lookup.race.name type)
    (runs : lookup.race.runs = front ++ (type, .unstarted) :: back)
    (ran : Pass.start lookup.race.name type (call.session resolver) = (.ok progress, session))
    (sends : session.resolver.outbox = resolver.outbox ++ more)
    (asks : type = lookup.race.preferred → ∀ result, progress ≠ .finished result) :
    Underway settings rotation (call.goingOn
      (.racing (lookup.withRuns (front ++ (type, .ofProgress progress) :: back))) session)
      (lookup.withRuns (front ++ (type, .ofProgress progress) :: back))
      session.resolver (sent ++ more) := by
  obtain ⟨times, turned, count⟩ := underway.turned
  obtain ⟨left, events, pending, rest, heard⟩ := underway.exists_left first
  have pending' : Race.pending (front ++ (type, .ofProgress progress) :: back) = left := by
    refine (Race.pending_of_start (runs ▸ underway.nodup) (runs ▸ pending) ?_).1
    cases progress <;> rfl
  -- The pass uses the configured servers once, and one pass less is pending: the sum stays.
  obtain ⟨turned', turn⟩ := Pass.turns_start turned rotates unversed ran
  refine ⟨rfl, underway.purpose, underway.preferred, underway.types_of_run runs,
    ⟨events, ?_, heard⟩, underway.alone_of_run runs ?_, ⟨times + 1, turned', ?_⟩, .inr ?_⟩
  · show call.matters.tail = _
    rw [first, List.tail_cons, rest]
    exact congrArg (List.map Matter.start · ++ events) pending'.symm
  · obtain ⟨failure, rfl⟩ | ⟨asked, rfl, -⟩ := turn
    · exact fun preferred => absurd rfl (asks preferred _)
    · rfl
  · rw [pending, List.length_cons] at count
    show times + 1 + (Race.pending (front ++ (type, .ofProgress progress) :: back)).length = _
    rw [pending']
    omega
  · obtain ⟨all, rfl⟩ | begins := underway.begins
    · obtain ⟨preferred, rfl⟩ := underway.first_of_all pending count all
      obtain ⟨failure, rfl⟩ | ⟨asked, rfl, datagram, outbox, addressed⟩ := turn
      · exact absurd rfl (asks preferred _)
      · have same : more = [datagram] := List.append_cancel_left (sends.symm.trans outbox)
        exact ⟨datagram, by rw [same]; rfl, addressed⟩
    · exact begins.append more

theorem Underway.resumes (underway : Underway settings rotation call lookup resolver sent)
    {type : RecordType} {serial : Nat} {event : Event} {matters : List Matter}
    {front back : Runs} {pass : Pass} {progress : Progress} {session : Session}
    (first : call.matters = .event serial event :: matters)
    (answered : type = lookup.race.preferred → ∀ result,
      (pass.asked.query.happen event resolver.registry).1.1 = some result →
        pass.asked.inquiry.IsAnsweredBy result)
    (stays : ∀ result, (pass.asked.query.happen event resolver.registry).1.1 = some result →
      pass.asked.inquiry.Stays result)
    (runs : lookup.race.runs = front ++ (type, .waiting pass) :: back)
    (ran : pass.resume event (call.session resolver) = (.ok progress, session)) :
    Underway settings rotation (call.goingOn
      (.racing (lookup.withRuns (front ++ (type, .ofProgress progress) :: back))) session)
      (lookup.withRuns (front ++ (type, .ofProgress progress) :: back))
      session.resolver (sent ++ more) := by
  obtain ⟨events, own, heard⟩ := underway.matters
  obtain ⟨times, turned, count⟩ := underway.turned
  -- All passes are started before any event is attended to.
  have none : Race.pending lookup.race.runs = [] := by
    rw [first] at own
    cases pending : Race.pending lookup.race.runs with
    | nil => rfl
    | cons other left =>
      rw [pending] at own
      cases (List.cons.inj own).1
  have pending : Race.pending (front ++ (type, .ofProgress progress) :: back) = [] := by
    rw [runs] at none
    rw [← none]
    refine Race.pending_of_resume rfl ?_
    cases progress <;> rfl
  have alone : pass.outer = [] := underway.alone (type, .waiting pass) (runs ▸ by simp)
  obtain ⟨turned', waits⟩ := Pass.steady_resume alone turned stays ran
  refine ⟨rfl, underway.purpose, underway.preferred, underway.types_of_run runs,
    ⟨events.tail, ?_, fun matter member => heard matter (List.mem_of_mem_tail member)⟩,
    underway.alone_of_run runs ?_, ⟨times, turned', ?_⟩, .inr ((underway.begun none).append more)⟩
  · show call.matters.tail =
      (Race.pending (front ++ (type, .ofProgress progress) :: back)).map _ ++ _
    rw [pending, own, none]
    rfl
  · cases progress with
    | waiting next => exact waits next rfl
    | finished result =>
      exact fun preferred => Pass.answer_of_resume alone (answered preferred) ran
  · rw [none] at count
    show times + (Race.pending (front ++ (type, .ofProgress progress) :: back)).length = _
    rw [pending]
    exact count

theorem Underway.closes (underway : Underway settings rotation call lookup resolver sent)
    (rests : call.matters = []) (ran : call.step resolver = (.ok (some next), after))
    (sends : after.outbox = resolver.outbox ++ more) :
    Stage settings rotation next after (sent ++ more) := by
  obtain ⟨events, own, -⟩ := underway.matters
  obtain ⟨times, turned, count⟩ := underway.turned
  -- Nothing is left to attend to, so no pass is pending and the count of uses is complete.
  have none : Race.pending lookup.race.runs = [] :=
    List.map_eq_nil_iff.mp (List.append_eq_nil_iff.mp (own.symm.trans rests)).1
  obtain ⟨ends, progress, session, concluded, rfl, rfl⟩ :=
    closes_of_step underway.racing rests ran
  obtain ⟨others, types⟩ := settings.preference.types_eq_cons
  have preferred : lookup.race.preferred ∈ lookup.race.types := by
    rw [underway.types, underway.preferred, types]
    exact List.mem_cons_self
  obtain ⟨found, gives⟩ := Race.addresses_of_preferred preferred underway.alone ends
  obtain ⟨_, dropped, drops, settles⟩ := Op.bind_eq_ok.mp concluded
  rw [Session.withResolver_apply] at drops
  obtain ⟨-, rfl⟩ := Prod.mk.inj drops
  rw [underway.purpose] at settles
  simp only [gives] at settles
  cases settles
  have kept : (lookup.race.drop resolver).2.Turned settings times :=
    lookup.race.holds_drop (fun pass other kept => ⟨kept.settings, kept.rotation⟩) turned
  obtain rfl : more = [] := by
    have quiet : (lookup.race.drop resolver).2.outbox = resolver.outbox :=
      lookup.race.quiet_drop resolver
    exact List.append_right_eq_self.mp (sends.symm.trans quiet)
  rw [List.append_nil]
  rw [none, List.length_nil, Nat.add_zero] at count
  exact .over (activity_enterRace _) kept (.inr ⟨count, underway.begun none⟩)

/-- An event that concerns no pass leaves the call `Underway`. -/
theorem Underway.passes (underway : Underway settings rotation call lookup resolver sent)
    {matter : Matter} {matters : List Matter} (first : call.matters = matter :: matters)
    (started : ∀ type, matter = .start type → (call.activity.runs.map Prod.fst).Nodup →
      (type, .unstarted) ∉ call.activity.runs) :
    Underway settings rotation { call with matters := matters } lookup resolver sent := by
  obtain ⟨events, own, heard⟩ := underway.matters
  have runs : call.activity.runs = lookup.race.runs := by
    rw [underway.racing]
    rfl
  have none : Race.pending lookup.race.runs = [] := by
    cases pending : Race.pending lookup.race.runs with
    | nil => rfl
    | cons type left =>
      rw [first, pending] at own
      obtain ⟨same, -⟩ := List.cons.inj own
      refine absurd ?_ (started type same (runs ▸ underway.nodup))
      have member : type ∈ Race.pending lookup.race.runs := pending ▸ List.mem_cons_self
      obtain ⟨run, among, rfl⟩ := List.mem_map.mp member
      obtain ⟨among, waits⟩ := List.mem_filter.mp among
      rcases run with ⟨type, _ | _ | _⟩
      · exact runs ▸ among
      · cases waits
      · cases waits
  rw [none, List.map_nil, List.nil_append] at own
  exact { underway with
    racing := underway.racing
    matters := ⟨matters, by rw [none]; rfl, fun other member =>
      heard other (own ▸ first ▸ List.mem_cons_of_mem _ member)⟩ }

theorem Stage.step (stage : Stage settings rotation call resolver sent)
    (rotates : settings.rotate = true) (plain : call.Plain resolver)
    (ran : call.step resolver = (.ok (some next), after))
    (sends : after.outbox = resolver.outbox ++ more) :
    Stage settings rotation next after (sent ++ more) := by
  -- Before, during and after the race; the strides that do not fit the stage are ruled out by what
  -- the call is doing.
  cases stage with
  | idle asks idle first turned => exact stage_of_begins asks idle first turned ran sends
  | @racing _ lookup underway =>
    have racing := underway.racing
    cases rests : call.matters with
    | nil => exact underway.closes rests ran sends
    | cons matter matters =>
      cases stride_of_step ran with
      | begins requested => cases racing.symm.trans requested
      | asks requested => cases racing.symm.trans requested
      | starts own first runs began =>
        obtain rfl := Activity.racing.inj (own.symm.trans racing)
        refine .racing (underway.starts rotates first (plain.unversed racing first) runs began
          sends ?_)
        rintro rfl result rfl
        exact plain.asks racing first ran result (by
          simp [goingOn, Activity.runs, HostLookup.withRuns, NameResolution.Run.ofProgress])
      | resumes own first runs addressed resumed =>
        obtain rfl := Activity.racing.inj (own.symm.trans racing)
        refine .racing (underway.resumes first ?_ (fun result settled =>
          plain.stays first addressed settled) runs resumed)
        rintro rfl result settled
        exact plain.answered racing first (runs ▸ by simp) addressed settled
      | answers asking => cases racing.symm.trans asking
      | closes own none => cases rests.symm.trans none
      | passes first begun started strange =>
        obtain rfl : more = [] := List.append_right_eq_self.mp sends.symm
        rw [List.append_nil]
        exact .racing (underway.passes first started)
  | «over» ended turned begins =>
    obtain ⟨matter, matters, -, rfl, rfl⟩ := passes_of_step ended ran
    obtain rfl : more = [] := List.append_right_eq_self.mp sends.symm
    rw [List.append_nil]
    exact .over ended turned begins

theorem Stage.hears (stage : Stage settings rotation call resolver sent) (serial : Nat)
    (event : Event) : Stage settings rotation (call.notify serial event) resolver sent := by
  cases stage with
  | @idle host matters asks idle first turned =>
    have own : (call.notify serial event).matters =
        .begin :: (matters ++ [.event serial event]) := by
      rw [notify, first, List.cons_append]
    exact .idle asks idle own turned
  | racing underway =>
    obtain ⟨events, own, heard⟩ := underway.matters
    refine .racing { underway with
      racing := underway.racing
      matters := ⟨events ++ [.event serial event], ?_, fun matter member => ?_⟩ }
    · rw [notify, own, List.append_assoc]
    · obtain earlier | last := List.mem_append.mp member
      · exact heard matter earlier
      · exact ⟨serial, event, List.mem_singleton.mp last⟩
  | «over» ended turned begins => exact .over ended turned begins

theorem Stage.meanwhile (stage : Stage settings rotation call resolver sent)
    (kept : after.Turned resolver.settings resolver.rotation) :
    Stage settings rotation call after sent := by
  have turns {times : Nat} (turned : resolver.Turned settings times) :
      after.Turned settings times := by
    obtain ⟨rfl, rfl⟩ := turned
    exact kept
  cases stage with
  | idle asks idle first turned => exact .idle asks idle first (turns turned)
  | racing underway =>
    obtain ⟨times, turned, count⟩ := underway.turned
    exact .racing { underway with
      racing := underway.racing
      turned := ⟨times, turns turned, count⟩ }
  | «over» ended turned begins => exact .over ended (turns turned) begins

end Call

end

/-- The configured servers are left alone between `before` and `after`. -/
def Resolver.Idles (before after : Resolver) : Prop :=
  after.Turned before.settings before.rotation

/-- A lookup that is answered directly goes from `Stage` to stage. -/
theorem Call.stage_of_course {host : String} {budget : Nat} {begun resolver : Resolver}
    {call : Call} {sent : List Datagram} (rotates : begun.settings.rotate = true)
    (course : Course Resolver.Idles Plain (.new (.host host) budget) begun call resolver sent) :
    Stage begun.settings begun.rotation call resolver sent := by
  induction course with
  | starts => exact .idle rfl rfl rfl ⟨rfl, rfl⟩
  | hears course serial event ih => exact ih.hears serial event
  | meanwhile course changed ih => exact ih.meanwhile changed
  | steps course fits ran sends ih => exact ih.step rotates fits ran sends

end NameResolution
