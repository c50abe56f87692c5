import NameResolution.Proofs.Resolution.Steps
import NameResolution.Proofs.Resolution.Upkeep

/-!
# Answers are backed

A pass comes to an answer by what it has done: it has looked into the cache, sent queries, and heard
responses to them. The whole answer rests on what it has found there.

* `Pass.Deed`: what a pass has done. `Pass.Runs`: a pass in the course of any run, with its deeds.
* `Pass.Shown`: a record set that a pass has found in the cache or in a response.
* `Pass.Runs.stands`: the name that a pass asks for is one to which aliases lead that it has found.
* `Pass.Runs.answer_restsOn`: every answer of a pass rests on what it has found.
-/

namespace NameResolution

open Session (Ensures)

namespace Pass

/-! ## The deeds of a pass -/

/-- What a pass has done: it has looked into the `cache` at a time; it has sent a `query`; it has
`heard` the `response` to the query with a `serial` number. -/
inductive Deed
  | consulted (cache : Cache) (now : Duration)
  | sent (query : Query)
  | heard (serial : Nat) (response : Message)

/-- A pass that goes on by waiting for a `query` of its own has just sent it. -/
def sending : Turn × List Gathering → List Deed
  | (.asked asked, []) => [.sent asked.query]
  | _ => []

/-- A pass that may chase an alias looks into the cache first, which has learned the `response`. -/
def chasing (asked : Asked) (response : Message) (before : Session) : List Deed :=
  match Outcome.classify response asked.inquiry.name asked.inquiry.type with
  | .alias _ =>
    if before.allowance.chased then []
    else
      let resolver := (Session.learn response before).2.resolver
      [.consulted resolver.cache resolver.now]
  | _ => []

/-- What a pass does with the result of its `query`. -/
def hearing (asked : Asked) (before : Session) : Settlement → List Deed
  | .ok response => .heard asked.query.serial response :: chasing asked response before
  | .error _ => []

/-- A pass for a `name` and a `type` in the course of any run, with what it has done. It has ended,
or it waits for a query, or for a pass inside it. Every step meets any `Session` with a `Tidy`
`cache`: other passes go on in between. Every query is settled in any way, and every pass inside
ends in any way. -/
inductive Runs (name : Name) (type : RecordType) : List Deed → Turn × List Gathering → Prop
  | begun {depth : Nat} {turn : Turn} {before after : Session} (tidy : before.Tidy)
    (ran : begin name type depth before = (.ok turn, after)) :
    Runs name type
      (.consulted before.resolver.cache before.resolver.now :: sending (turn, [])) (turn, [])
  | waited {deeds : List Deed} {asked : Asked} {query : Query} {event : Event}
    {registry : Registry} (runs : Runs name type deeds (.asked asked, []))
    (happened : (asked.query.happen event registry).1 = (none, query)) :
    Runs name type deeds (.asked { asked with query := query }, [])
  | settled {deeds : List Deed} {asked : Asked} {event : Event} {registry : Registry}
    {result : Settlement} {next : Turn × List Gathering} {before after : Session}
    (runs : Runs name type deeds (.asked asked, []))
    (happened : (asked.query.happen event registry).1.1 = some result) (tidy : before.Tidy)
    (ran : conclude asked result before = (.ok next, after)) :
    Runs name type (deeds ++ hearing asked before (Inquiry.usable result) ++ sending next) next
  | gathered {deeds : List Deed} {inner : Asked} {gathering : Gathering}
    {result : Except Failure Answer} {next : Turn × List Gathering} {before after : Session}
    (runs : Runs name type deeds (.asked inner, [gathering])) (tidy : before.Tidy)
    (ran : (regather gathering result >>= takeUp gathering.inquiry gathering.referral) before =
      (.ok next, after)) :
    Runs name type (deeds ++ sending next) next

/-- The pass has put a question to a server by the `query`. -/
def HasSent (deeds : List Deed) (query : Query) : Prop :=
  .sent query ∈ deeds ∧ ∃ name type, Session.Sent query name type

/-- The record `set` has been found: a cache that was consulted shows it, or it is in the answer
section of the response to a query that was sent. -/
def Shown (deeds : List Deed) (set : RecordSet) : Prop :=
  (∃ cache now, .consulted cache now ∈ deeds ∧ cache.Shows now set) ∨
    ∃ query response, HasSent deeds query ∧ .heard query.serial response ∈ deeds ∧
      set ∈ response.sets .answer

theorem Shown.mono {deeds more : List Deed} (subset : deeds ⊆ more) {set : RecordSet}
    (shown : Shown deeds set) : Shown more set := by
  obtain ⟨cache, now, member, shows⟩ | ⟨query, response, sent, heard, among⟩ := shown
  · exact .inl ⟨cache, now, subset member, shows⟩
  · exact .inr ⟨query, response, sent.imp_left (subset ·), subset heard, among⟩

/-! ## How passes go on -/

/-- A pass that goes on with an `inquiry` fails, or puts its question to a server, or waits for a
pass inside it that looks up the address of one. -/
inductive Continues (inquiry : Inquiry) : Turn × List Gathering → Prop
  | failed (failure : Failure) : Continues inquiry (.finished (.error failure), [])
  | asks {asked : Asked} (puts : asked.Puts inquiry.name inquiry.type) :
    Continues inquiry (.asked asked, [])
  | gathers {inner : Asked} {gathering : Gathering} (same : gathering.inquiry = inquiry)
    (begun : ∃ name type deeds, Runs name type deeds (.asked inner, [])) :
    Continues inquiry (.asked inner, [gathering])

theorem Continues.of_ofInquiry {inquiry : Inquiry} {result : Except Failure Asked}
    (puts : WhenOk (Asked.Puts · inquiry.name inquiry.type) result) :
    Continues inquiry (.ofInquiry result, []) := by
  cases result with
  | ok asked => exact .asks (puts asked rfl)
  | error failure => exact .failed failure

/-- What is found in the cache is the `result` of a pass, or a pass for the `name` that it has come
to goes on. -/
def Follows (type : RecordType) : Cached → Turn → Prop
  | .hit result, turn => turn = .finished result
  | .miss reached, turn => ∃ inquiry : Inquiry, inquiry.name = reached ∧ inquiry.type = type ∧
    Continues inquiry (turn, [])

/-- A pass begins by following aliases in the `cache`. -/
theorem begin_follows {name : Name} {type : RecordType} {depth : Nat} {before after : Session}
    {turn : Turn} (tidy : before.Tidy) (ran : begin name type depth before = (.ok turn, after)) :
    after.Tidy ∧ ∃ known cache, Session.followCached type before.resolver.now Session.cachedAliases
      name before.resolver.cache = (.ok known, cache) ∧ Follows type known turn := by
  obtain ⟨known, session, consulted, ran⟩ := Op.bind_eq_ok.mp ran
  have kept := (Session.ensures_consultCache name type before tidy known session consulted).1
  obtain ⟨cache, followed⟩ := Session.consultCache_eq_ok consulted
  suffices follows : after.Tidy ∧ Follows type known turn from
    ⟨follows.1, known, cache, followed, follows.2⟩
  cases known with
  | hit result =>
    cases ran
    exact ⟨kept, rfl⟩
  | miss reached =>
    refine (Session.ensures_serversAround reached).bind (fun around _ => ?_)
      session kept turn after ran
    exact (Inquiry.ensures_askNext _).bind fun result puts =>
      .pure ⟨⟨type, depth, reached, around.2, around.1, none⟩, rfl, rfl, .of_ofInquiry puts⟩

/-! ### Gathering addresses of servers -/

/-- If gathering has to wait, then for a pass that `Runs`. -/
def Gathered.AwaitsRun (gathered : Gathered) : Prop :=
  ∀ asked glue server types, gathered = .waiting asked glue server types →
    ∃ name type deeds, Runs name type deeds (.asked asked, [])

theorem Gathered.awaitsRun_complete {glue : List RecordSet} :
    Gathered.AwaitsRun (.complete glue) := fun _ _ _ _ same => nomatch same

theorem ensures_gatherTypes (server : Name) (depth : Nat) (glue : List RecordSet)
    (types : List RecordType) :
    Ensures (gatherTypes server depth glue types) Gathered.AwaitsRun := by
  induction types generalizing glue with
  | nil => exact .pure Gathered.awaitsRun_complete
  | cons type types ih =>
    have begins : Ensures (begin server type depth) fun turn =>
        ∃ before after, before.Tidy ∧ begin server type depth before = (.ok turn, after) :=
      fun before tidy turn after ran => ⟨(begin_follows tidy ran).1, before, after, tidy, ran⟩
    refine begins.bind fun turn began => ?_
    cases turn with
    | asked asked =>
      obtain ⟨before, after, tidy, ran⟩ := began
      refine .pure fun other _ _ _ same => ?_
      obtain ⟨rfl, -⟩ := Gathered.waiting.inj same
      exact ⟨server, type, _, .begun tidy ran⟩
    | finished result =>
      dsimp only
      cases takeIn? server glue result with
      | some taken => exact ih taken
      | none => exact .pure Gathered.awaitsRun_complete

theorem ensures_gatherServers (types : List RecordType) (depth : Nat) (glue : List RecordSet)
    (servers : List Name) :
    Ensures (gatherServers types depth glue servers) (·.1.AwaitsRun) := by
  induction servers generalizing glue with
  | nil => exact .pure Gathered.awaitsRun_complete
  | cons server servers ih =>
    refine (ensures_gatherTypes server depth glue types).bind fun gathered awaits => ?_
    cases gathered with
    | complete glue => exact ih glue
    | waiting asked glue server types => exact .pure awaits

theorem ensures_redirect (inquiry : Inquiry) (referral : Referral) (glue : List RecordSet) :
    Ensures (redirect inquiry referral glue) fun turn => Continues inquiry (turn, []) := by
  refine Session.ensures_settings.bind fun settings _ => ?_
  refine (Session.ensures_onDelegations _).bind fun _ _ => ?_
  dsimp only
  split
  · exact .pure (.failed _)
  · exact (Inquiry.ensures_askNext _).bind fun _ puts => .pure (.of_ofInquiry puts)

theorem ensures_takeUp (inquiry : Inquiry) (referral : Referral) {gathered : Gathered × List Name}
    (awaits : gathered.1.AwaitsRun) :
    Ensures (takeUp inquiry referral gathered) (Continues inquiry) := by
  obtain ⟨glue | ⟨asked, glue, server, types⟩, servers⟩ := gathered
  · exact (ensures_redirect inquiry referral glue).bind fun _ continues => .pure continues
  · exact .pure (.gathers rfl (awaits asked glue server types rfl))

theorem ensures_regather (gathering : Gathering) (result : Except Failure Answer) :
    Ensures (regather gathering result >>= takeUp gathering.inquiry gathering.referral)
      (Continues gathering.inquiry) := by
  suffices awaits : Ensures (regather gathering result) (·.1.AwaitsRun) from
    awaits.bind fun gathered awaits => ensures_takeUp _ _ awaits
  have others (glue : List RecordSet) : Ensures (do
      gatherServers (← Session.settings).preference.types (gathering.inquiry.depth + 1) glue
        gathering.servers) (·.1.AwaitsRun) :=
    Session.ensures_settings.bind fun settings _ => ensures_gatherServers _ _ _ _
  unfold regather
  cases takeIn? gathering.server gathering.glue result with
  | none => exact others gathering.glue
  | some taken =>
    refine (ensures_gatherTypes _ _ taken _).bind fun gathered awaits => ?_
    cases gathered with
    | complete glue => exact others glue
    | waiting asked glue server types => exact .pure awaits

theorem ensures_refer (inquiry : Inquiry) (referral : Referral) :
    Ensures (refer inquiry referral) (Continues inquiry) :=
  Session.ensures_settings.bind fun _ _ =>
    (ensures_gatherServers _ _ _ _).bind fun _ awaits => ensures_takeUp _ _ awaits

/-! ### Settled queries -/

/-- A pass may chase an alias unless one was chased before. Then it follows aliases in the
`cache`. -/
theorem chase_follows {asked : Asked} {target : Name} {before after : Session} {turn : Turn}
    (tidy : before.Tidy) (ran : chase asked target before = (.ok turn, after)) :
    after.Tidy ∧ if before.allowance.chased then turn = .finished (.error .noMatchingRecord)
      else ∃ known cache, Session.followCached asked.inquiry.type before.resolver.now
        Session.cachedAliases target before.resolver.cache = (.ok known, cache) ∧
        Follows asked.inquiry.type known turn := by
  obtain ⟨session, _, got, ran⟩ := Op.bind_eq_ok.mp ran
  cases got
  by_cases chased : before.allowance.chased = true
  · rw [if_pos chased] at ran ⊢
    cases ran
    exact ⟨tidy, rfl⟩
  rw [if_neg chased] at ran ⊢
  obtain ⟨_, _, modified, ran⟩ := Op.bind_eq_ok.mp ran
  cases modified
  obtain ⟨known, session, consulted, ran⟩ := Op.bind_eq_ok.mp ran
  have kept := (Session.ensures_consultCache target asked.inquiry.type
    { before with allowance := { before.allowance with chased := true } } tidy known session
    consulted).1
  obtain ⟨cache, followed⟩ := Session.consultCache_eq_ok consulted
  suffices follows : after.Tidy ∧ Follows asked.inquiry.type known turn from
    ⟨follows.1, known, cache, followed, follows.2⟩
  -- The cache knows the end of the aliases, or a server is asked for the name that they lead to.
  cases known with
  | hit result =>
    cases ran
    exact ⟨kept, rfl⟩
  | miss reached =>
    obtain ⟨result, _, asks, rest⟩ := Op.bind_eq_ok.mp ran
    cases rest
    obtain ⟨still, puts⟩ := Inquiry.ensures_askServer { asked.inquiry with name := reached }
      asked.query.server session kept result _ asks
    exact ⟨still, { asked.inquiry with name := reached }, rfl, rfl, .of_ofInquiry puts⟩

/-- All that a pass can do when its query is settled: it fails, or it has the `answer`, or it
follows an alias through the cache, or it goes on with its `inquiry`. -/
inductive Concludes (asked : Asked) (result : Settlement) (before : Session) :
    Turn × List Gathering → Prop
  | failed (failure : Failure) : Concludes asked result before (.finished (.error failure), [])
  | answered {response : Message} {answer : Answer} (used : Inquiry.usable result = .ok response)
    (meant : Outcome.classify response asked.inquiry.name asked.inquiry.type = .answer answer) :
    Concludes asked result before (.finished (.ok answer), [])
  | chased {response : Message} {target : Name} {known : Cached} {cache : Cache} {turn : Turn}
    (used : Inquiry.usable result = .ok response)
    (meant : Outcome.classify response asked.inquiry.name asked.inquiry.type = .alias target)
    (unused : before.allowance.chased = false)
    (tidy : (Session.learn response before).2.Tidy)
    (followed : Session.followCached asked.inquiry.type
      (Session.learn response before).2.resolver.now Session.cachedAliases target
      (Session.learn response before).2.resolver.cache = (.ok known, cache))
    (follows : Follows asked.inquiry.type known turn) : Concludes asked result before (turn, [])
  | continued {next : Turn × List Gathering} (continues : Continues asked.inquiry next) :
    Concludes asked result before next

theorem concludes_of_react {asked : Asked} {result : Settlement} {response : Message}
    {before after : Session} {next : Turn × List Gathering}
    (used : Inquiry.usable result = .ok response) (tidy : (Session.learn response before).2.Tidy)
    (ran : react asked response (Session.learn response before).2 = (.ok next, after)) :
    after.Tidy ∧ Concludes asked result before next := by
  unfold react at ran
  -- One case for each outcome. Only an alias and a referral lead to further operations.
  cases meant : Outcome.classify response asked.inquiry.name asked.inquiry.type <;>
    simp only [meant] at ran
  case answer answer =>
    cases ran
    exact ⟨tidy, .answered used meant⟩
  case nxDomain =>
    cases ran
    exact ⟨tidy, .failed _⟩
  case noData =>
    cases ran
    exact ⟨tidy, .failed _⟩
  case «alias» target =>
    obtain ⟨turn, _, ran, rest⟩ := Op.bind_eq_ok.mp ran
    cases rest
    obtain ⟨kept, follows⟩ := chase_follows tidy ran
    rw [Session.allowance_learn] at follows
    refine ⟨kept, ?_⟩
    split at follows
    · rw [follows]
      exact .failed _
    · rename_i unused
      obtain ⟨known, cache, followed, follows⟩ := follows
      exact .chased used meant (by simpa using unused) tidy followed follows
  case referral referral =>
    split at ran
    · obtain ⟨kept, continues⟩ := ensures_refer _ _ _ tidy next after ran
      exact ⟨kept, .continued continues⟩
    · obtain ⟨result, _, retried, rest⟩ := Op.bind_eq_ok.mp ran
      cases rest
      obtain ⟨kept, puts⟩ := Inquiry.ensures_retry _ _ _ tidy _ _ retried
      exact ⟨kept, .continued (.of_ofInquiry puts)⟩

theorem concludes_of_conclude {asked : Asked} {result : Settlement} {before after : Session}
    {next : Turn × List Gathering} (tidy : before.Tidy)
    (ran : conclude asked result before = (.ok next, after)) :
    after.Tidy ∧ Concludes asked result before next := by
  obtain ⟨evaluation, learned, evaluated, ran⟩ := Op.bind_eq_ok.mp ran
  obtain ⟨kept, evaluated⟩ := Inquiry.ensures_evaluate tidy evaluated
  cases evaluated with
  | @response response used same =>
    subst same
    exact concludes_of_react used kept ran
  | @again next puts =>
    cases ran
    exact ⟨kept, .continued (.asks puts)⟩
  | failed failure =>
    cases ran
    exact ⟨kept, .failed failure⟩

/-! ## How passes stand -/

variable {name : Name} {type : RecordType} {deeds : List Deed}

/-- The `inquiry` is about a `name` to which aliases lead that were found, and about the `type`. -/
structure Concerns (name : Name) (type : RecordType) (deeds : List Deed) (inquiry : Inquiry) :
    Prop where
  leads : Leads (Shown deeds) name inquiry.name
  type : inquiry.type = type

theorem Concerns.mono {more : List Deed} {inquiry : Inquiry}
    (concerns : Concerns name type deeds inquiry) (subset : deeds ⊆ more) :
    Concerns name type more inquiry :=
  ⟨concerns.leads.mono fun _ => Shown.mono subset, concerns.type⟩

/-- The `Answer` of a pass that has ended rests on what was found. The `inquiry` of a pass that
waits is about the `name` that was come to; a `query` that it waits for was sent. -/
def Stands (name : Name) (type : RecordType) (deeds : List Deed) : Turn × List Gathering → Prop
  | (.finished result, _) => WhenOk (Answer.RestsOn (Shown deeds) name type) result
  | (.asked asked, []) => Concerns name type deeds asked.inquiry ∧
      ∃ query, HasSent deeds query ∧ query.serial = asked.query.serial
  | (.asked _, gathering :: _) => Concerns name type deeds gathering.inquiry

theorem Continues.stands {inquiry : Inquiry} {next : Turn × List Gathering}
    (continues : Continues inquiry next) (concerns : Concerns name type deeds inquiry) :
    Stands name type (deeds ++ sending next) next := by
  cases continues with
  | failed failure => exact whenOk_error
  | @asks asked puts =>
    refine ⟨⟨?_, ?_⟩, asked.query, ?_, rfl⟩
    · rw [puts.name]
      exact concerns.leads.mono fun _ => Shown.mono (List.subset_append_left _ _)
    · exact puts.type.trans concerns.type
    · exact ⟨List.mem_append_right _ (List.mem_singleton.mpr rfl), _, _, puts.sent⟩
  | gathers same begun =>
    rw [← same] at concerns
    exact concerns.mono (List.subset_append_left _ _)

theorem Follows.stands {known : Cached} {turn : Turn} (follows : Follows type known turn)
    (rests : known.RestsOn (Shown deeds) name type) :
    Stands name type (deeds ++ sending (turn, [])) (turn, []) := by
  cases known with
  | hit result =>
    obtain rfl : turn = .finished result := follows
    exact Cached.RestsOn.mono rests fun _ => Shown.mono (List.subset_append_left _ _)
  | miss reached =>
    obtain ⟨inquiry, rfl, rfl, continues⟩ := follows
    exact continues.stands ⟨rests, rfl⟩

theorem shown_of_consulted {cache : Cache} {now : Duration}
    (member : .consulted cache now ∈ deeds) (set : RecordSet) (shows : cache.Shows now set) :
    Shown deeds set := .inl ⟨cache, now, member, shows⟩

/-- What a pass comes to when its query is settled rests on the answer section of the response, and
on the cache if it follows an alias: it `Stands` after that event. -/
theorem Concludes.stands {asked : Asked} {result : Settlement} {before : Session}
    {next : Turn × List Gathering} (concludes : Concludes asked result before next)
    (single : type ≠ .any) (stands : Stands name type deeds (.asked asked, [])) :
    Stands name type (deeds ++ hearing asked before (Inquiry.usable result) ++ sending next)
      next := by
  obtain ⟨concerns, query, sent, serial⟩ := stands
  obtain rfl := concerns.type
  have leads : Leads (Shown (deeds ++ hearing asked before (Inquiry.usable result))) name
      asked.inquiry.name := concerns.leads.mono fun _ => Shown.mono (List.subset_append_left _ _)
  -- The response is one to a query that the pass has sent, so its answer section counts as shown.
  have heard {response : Message} (used : Inquiry.usable result = .ok response) :
      ∀ set ∈ response.sets .answer,
        Shown (deeds ++ hearing asked before (Inquiry.usable result)) set := by
    refine fun set among =>
      .inr ⟨query, response, sent.imp_left (List.mem_append_left _), ?_, among⟩
    rw [used, serial]
    exact List.mem_append_right _ List.mem_cons_self
  cases concludes with
  | failed failure => exact whenOk_error
  | @answered response answer used meant =>
    have means := Outcome.restsOn_classify response asked.inquiry.name asked.inquiry.type
    rw [meant] at means
    have rests := (Answer.RestsOn.mono means (heard used)).after leads
    exact whenOk_ok.mpr (rests.mono fun _ => Shown.mono (List.subset_append_left _ _))
  | @chased response target known cache turn used meant unused tidy followed follows =>
    have means := Outcome.restsOn_classify response asked.inquiry.name asked.inquiry.type
    rw [meant] at means
    have rests := Session.restsOn_followCached single _ tidy followed
    refine follows.stands ((rests.mono (shown_of_consulted ?_)).after
      (leads.trans (Leads.mono means (heard used))))
    rw [used, hearing, chasing, meant]
    simp [unused]
  | continued continues => exact continues.stands ⟨leads, rfl⟩

/-- In every run of a pass for a single `type`, aliases that were found lead from the `name` that it
was begun for to the name that it asks for; and if it ends with an answer, this rests on what was
found. -/
theorem Runs.stands {next : Turn × List Gathering} (runs : Runs name type deeds next)
    (single : type ≠ .any) : Stands name type deeds next := by
  induction runs with
  | @begun depth turn before after tidy ran =>
    obtain ⟨-, known, cache, followed, follows⟩ := begin_follows tidy ran
    have rests : known.RestsOn
        (Shown [.consulted before.resolver.cache before.resolver.now]) name type :=
      (Session.restsOn_followCached single _ tidy followed).mono
        (shown_of_consulted List.mem_cons_self)
    exact follows.stands rests
  | @waited deeds asked query event registry runs happened ih =>
    obtain ⟨concerns, first, sent, serial⟩ := ih
    refine ⟨concerns, first, sent, serial.trans ?_⟩
    rw [← Query.keepsSerial_happen asked.query event registry, happened]
  | settled runs happened tidy ran ih =>
    exact (concludes_of_conclude tidy ran).2.stands single ih
  | @gathered deeds inner gathering result next before after runs tidy ran ih =>
    have continues := (ensures_regather gathering result before tidy next after ran).2
    exact continues.stands ih

/-- Every `answer` of a pass is backed by records. Whatever the cache holds, whatever the servers
send, and whatever happens in between: if a pass that `Runs` for a single `type` ends with an
answer, the answer `RestsOn` what was `Shown` to the pass. It has at least one record set. All its
sets are of the type, belong to the `canonical` name, and were found in the cache, where they
counted and could be trusted, or in the answer section of a response to a query of the pass. The
canonical name is one to which aliases lead that were found there as well. -/
theorem Runs.answer_restsOn {answer : Answer} {outer : List Gathering}
    (runs : Runs name type deeds (.finished (.ok answer), outer)) (single : type ≠ .any) :
    answer.RestsOn (Shown deeds) name type :=
  whenOk_ok.mp (runs.stands single)

/-- A host is an alias of the one with the `hostAddress`. -/
def hostAlias : Record := ⟨.top 119, .internet, 60, .cname (.top 118)⟩

/-- The host that `hostAlias` leads to has an address. -/
def hostAddress : Record := ⟨.top 118, .internet, 60, .a (.ofOctets 192 0 2 1)⟩

/-- A `Session` whose cache knows of the alias. -/
def aliasSession : Session where
  resolver := { Resolver.new (Settings.finalize .new) .empty .default .default with
    cache := ((Cache.Scene.start .default).run [.addRecord hostAlias .authAnswer]).cache }
  allowance := .full 8

/-- A response that tells the `hostAddress`. -/
def addressResponse : Message where
  header := Header.empty.setResponse true
  questions := [.internet (.top 118) .a]
  answer := [hostAddress]
  authority := []
  additional := []

/-- The pass follows `hostAlias` in the cache, and asks a server for the address. -/
theorem Runs.answer_restsOn_address : ∃ deeds answer,
    Runs (.top 119) .a deeds (.finished (.ok answer), []) ∧ RecordType.a ≠ .any ∧
      answer.canonical = .top 118 ∧ answer.RestsOn (Shown deeds) (.top 119) .a := by
  have tidy : aliasSession.Tidy :=
    Cache.Scene.tidy_run .default (List.forall_mem_singleton.mpr trivial)
  obtain ⟨asked, after, began, happened, last, concluded⟩ : ∃ asked after,
      begin (.top 119) .a 0 aliasSession = (.ok (.asked asked), after) ∧
      (asked.query.happen .written { Registry.empty with
        replies := [(1, .response addressResponse)] }).1.1 = some (.ok addressResponse) ∧
      ∃ last, conclude asked (.ok addressResponse) aliasSession =
        (.ok (.finished (.ok ⟨.top 118, [.ofRecord hostAddress]⟩), []), last) :=
    ⟨_, _, rfl, rfl, _, rfl⟩
  have runs := (Runs.begun tidy began).settled happened tidy concluded
  have single : RecordType.a ≠ .any := by decide
  exact ⟨_, _, runs, single, rfl, runs.answer_restsOn single⟩

/-! ## Nested passes -/

/-- A pass with the passes around it, which wait for the addresses of servers: each of them is in
the course of some run, and the outermost one is for the `name` and the `type`. -/
def Nested (name : Name) (type : RecordType) : List Gathering → Turn × List Gathering → Prop
  | [], standing => ∃ deeds, Runs name type deeds standing
  | gathering :: outer, standing => (∃ name type deeds, Runs name type deeds standing) ∧
      ∃ inner, Nested name type outer (.asked inner, [gathering])

/-- Where a pass that goes on waits for another one, that one `Runs`. -/
def OpensRun (next : Turn × List Gathering) : Prop :=
  next.2 = [] ∨ ∃ inner gathering, next = (.asked inner, [gathering]) ∧
    ∃ name type deeds, Runs name type deeds (.asked inner, [])

theorem Continues.opensRun {inquiry : Inquiry} {next : Turn × List Gathering}
    (continues : Continues inquiry next) : OpensRun next := by
  cases continues with
  | failed failure => exact .inl rfl
  | asks puts => exact .inl rfl
  | gathers same begun => exact .inr ⟨_, _, rfl, begun⟩

theorem Concludes.opensRun {asked : Asked} {result : Settlement} {before : Session}
    {next : Turn × List Gathering} (concludes : Concludes asked result before next) :
    OpensRun next := by
  cases concludes with
  | continued continues => exact continues.opensRun
  | _ => exact .inl rfl

/-- If the innermost pass goes on as `OpensRun` has it, all passes are `Nested` again. -/
theorem Nested.goes {outer : List Gathering} {standing next : Turn × List Gathering}
    (nested : Nested name type outer standing) (opens : OpensRun next)
    (goes : ∀ name type deeds, Runs name type deeds standing →
      ∃ deeds, Runs name type deeds next) :
    Nested name type (next.2 ++ outer) (next.1, []) := by
  have kept : Nested name type outer next := by
    cases outer with
    | nil =>
      obtain ⟨deeds, runs⟩ := nested
      exact goes name type deeds runs
    | cons gathering outer =>
      obtain ⟨⟨name, type, deeds, runs⟩, around⟩ := nested
      exact ⟨⟨name, type, goes name type deeds runs⟩, around⟩
  obtain ⟨turn, inner⟩ := next
  obtain rfl | ⟨inner, gathering, same, begun⟩ := opens
  · exact kept
  · obtain ⟨rfl, rfl⟩ := Prod.mk.inj same
    exact ⟨begun, inner, kept⟩

/-- The outermost pass is in the course of a run for the `name` and the `type`, and so are those
inside it. -/
def Conducted (name : Name) (type : RecordType) (progress : Progress) : Prop :=
  Nested name type progress.parts.2 (progress.parts.1, [])

theorem ensures_unwind (turn : Turn) (outer : List Gathering)
    (nested : Nested name type outer (turn, [])) :
    Ensures (unwind turn outer) (Conducted name type) := by
  induction outer generalizing turn with
  | nil => cases turn <;> exact .pure nested
  | cons gathering outer ih =>
    cases turn with
    | asked asked => exact .pure nested
    | finished result =>
      obtain ⟨-, inner, around⟩ := nested
      unfold unwind
      rw [← bind_assoc]
      refine (ensures_regather gathering result).and_ran.bind fun next regathered => ?_
      obtain ⟨continues, before, after, tidy, ran⟩ := regathered
      have kept := around.goes continues.opensRun fun name type deeds runs =>
        ⟨_, runs.gathered tidy ran⟩
      cases continues with
      | failed failure => exact ih _ kept
      | asks puts => exact .pure kept
      | gathers same begun => exact .pure kept

/-- A pass that is started is in the course of a run, and so are those inside it: they are
`Conducted`. -/
theorem ensures_start (name : Name) (type : RecordType) :
    Ensures (start name type) (Conducted name type) := by
  have begins : Ensures (begin name type 0) fun turn => Nested name type [] (turn, []) :=
    fun before tidy turn after ran => ⟨(begin_follows tidy ran).1, _, .begun tidy ran⟩
  exact begins.bind fun turn nested => ensures_unwind turn [] nested

/-- Passes stay `Conducted` when one of them resumes. -/
theorem ensures_resume {pass : Pass} (conducted : Conducted name type (.waiting pass))
    (event : Event) : Ensures (pass.resume event) (Conducted name type) := by
  intro before tidy progress after ran
  obtain ⟨waits, rfl, rfl⟩ | ⟨result, next, session, settles, concluded, unwound⟩ :=
    resume_cases ran
  · have goes (name : Name) (type : RecordType) (deeds : List Deed)
        (runs : Runs name type deeds (.asked pass.asked, [])) :
        ∃ deeds, Runs name type deeds (.asked { pass.asked with
          query := (pass.asked.query.happen event before.resolver.registry).1.2 }, []) :=
      ⟨deeds, runs.waited (Prod.ext waits rfl)⟩
    exact ⟨tidy, Nested.goes conducted (.inl rfl) goes⟩
  · obtain ⟨kept, concludes⟩ := concludes_of_conclude (by exact tidy) concluded
    have nested := Nested.goes conducted concludes.opensRun fun name type deeds runs =>
      ⟨_, runs.settled settles (by exact tidy) concluded⟩
    exact ensures_unwind _ _ nested session kept progress after unwound

end Pass

end NameResolution
