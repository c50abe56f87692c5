import NameResolution.Proofs.Resolution.Soundness
import NameResolution.Resolution.Call

/-!
# Calls that are never refused

All that a call does with a sound resolver succeeds, whatever events its queries meet. One lemma for
each operation says that it succeeds and that what it gives is sound again.

* `Outcome.sound_classify`: what an encodable response means is sound.
* `Pass.safe_start`, `Pass.safe_resume`: passes start and go on safely.
* `HostLookup.safe_conclude`: host lookups go on safely.
* `Call.succeeds_step`: calls take their steps safely.
-/

namespace NameResolution

open RecordSet (AllEncodable)
open Session (Safe)

/-! ## Outcomes -/

/-- A `referral` names the servers of a zone, and all its records are encodable. -/
structure Referral.Sound (referral : Referral) : Prop where
  servers : referral.servers.Encodable
  kind : referral.servers.type = .ns
  glue : AllEncodable referral.glue

namespace Outcome

/-- The names that an `Outcome` leads to are absolute, and its records are encodable. -/
def Sound : Outcome → Prop
  | .answer found => AllEncodable found.sets
  | .alias target => target.absolute = true
  | .referral servers => servers.Sound
  | .nxDomain | .noData => True

/-- Aliases lead to encodable records (`found`), or to an absolute name (`ends`). -/
def Trail.Sound : Trail → Prop
  | .found result => AllEncodable result.sets
  | .ends reached => reached.absolute = true

theorem absolute_of_aliasBy? {name next : Name} {set : RecordSet} (encodable : set.Encodable)
    (leads : aliasBy? name set = some next) : next.absolute = true := by
  have first := encodable.first
  unfold aliasBy? at leads
  split at leads
  · rename_i target is
    rw [is] at first
    split at leads
    · exact Option.some.inj leads ▸ first
    · cases leads
  · rename_i target is
    rw [is] at first
    split at leads
    · rename_i rewritten
      rw [leads] at rewritten
      exact (Name.rewrite?_eq_some_iff.mp rewritten).2.2.trans first
    · cases leads
  · cases leads

theorem sound_follow {sets : List RecordSet} (encodable : AllEncodable sets) (type : RecordType)
    (steps : Nat) {name : Name} (absolute : name.absolute = true) :
    (follow sets type steps name).Sound := by
  induction steps generalizing name with
  | zero => exact absolute
  | succ steps ih =>
    unfold follow
    dsimp only
    split
    · split
      · rename_i next leads
        obtain ⟨set, member, leads⟩ := List.exists_of_findSome?_eq_some leads
        exact ih (absolute_of_aliasBy? (encodable set member) leads)
      · exact absolute
    · exact fun set member => encodable set (List.mem_filter.mp member).1

/-- What an `Encodable` `response` means is `Sound`. -/
theorem sound_classify {response : Message} (encodable : response.Encodable) {name : Name}
    (absolute : name.absolute = true) (type : RecordType) :
    (classify response name type).Sound := by
  have follows := sound_follow (encodable.sets .answer) type
    ((response.sets .answer).length + 1) absolute
  have means := means_classify response name type
  generalize classify response name type = outcome at means
  cases means with
  | answer leads =>
    rw [leads] at follows
    exact follows
  | «alias» leads away =>
    rw [leads] at follows
    exact follows
  | referral leads exist same delegated unanswered =>
    obtain ⟨member, kind, -⟩ := delegated?_eq_some delegated
    exact ⟨encodable.sets .authority _ member, kind, fun set among =>
      encodable.sets .additional set (List.mem_filter.mp among).1⟩
  | nxDomain missing => trivial
  | noData => trivial

end Outcome

/-! ## Passes -/

/-- A gathering whose names are absolute and whose records are encodable. -/
structure Gathering.Sound (gathering : Gathering) : Prop where
  inquiry : gathering.inquiry.Sound
  referral : gathering.referral.Sound
  glue : AllEncodable gathering.glue
  server : gathering.server.absolute = true
  servers : ∀ server ∈ gathering.servers, server.absolute = true

/-- A pass ends with an encodable `answer`, or with the next query of a `Sound` inquiry. -/
def Turn.Sound : Turn → Prop
  | .finished result => WhenOk (fun answer => AllEncodable answer.sets) result
  | .asked next => next.Sound

theorem Turn.sound_ofInquiry {result : Except Failure Asked} (sound : WhenOk Asked.Sound result) :
    (Turn.ofInquiry result).Sound := by
  cases result with
  | ok next => exact (whenOk_ok.mp sound : next.Sound)
  | error failure => exact whenOk_error

/-- The query and all gatherings of a `pass` are `Sound`. -/
structure Pass.Sound (pass : Pass) : Prop where
  asked : pass.asked.Sound
  outer : ∀ gathering ∈ pass.outer, gathering.Sound

/-- A `pass` and the passes inside it end with an encodable `answer`, or wait soundly. -/
def Progress.Sound : Progress → Prop
  | .finished result => WhenOk (fun answer => AllEncodable answer.sets) result
  | .waiting pass => pass.Sound

namespace Pass

variable {now : Duration}

theorem safe_begin {name : Name} (absolute : name.absolute = true) (type : RecordType)
    (depth : Nat) : Safe now (begin name type depth) Turn.Sound := by
  refine (Session.safe_consultCache absolute type).bind fun known sound => ?_
  cases known with
  | hit result => exact .pure sound
  | miss name =>
    have absolute : name.absolute = true := sound
    refine (Session.safe_serversAround absolute).bind fun ⟨zone, rota⟩ proper => ?_
    have inquiry : Inquiry.Sound ⟨type, depth, name, rota, zone, none⟩ := ⟨absolute, proper⟩
    exact (Inquiry.safe_askNext inquiry).bind fun _ asked => .pure (Turn.sound_ofInquiry asked)

/-! ### Gathering addresses of servers -/

/-- What has been gathered is encodable, and a pass that has to wait does so soundly. -/
def Gathered.Sound : Gathered → Prop
  | .complete glue => AllEncodable glue
  | .waiting asked glue server _ => asked.Sound ∧ AllEncodable glue ∧ server.absolute = true

theorem encodable_append {sets more : List RecordSet} (first : AllEncodable sets)
    (second : AllEncodable more) : AllEncodable (sets ++ more) :=
  List.forall_mem_append.mpr ⟨first, second⟩

theorem encodable_takeIn? {server : Name} (absolute : server.absolute = true)
    {glue taken : List RecordSet} (encodable : AllEncodable glue) {result : Except Failure Answer}
    (fine : WhenOk (fun answer => AllEncodable answer.sets) result)
    (takes : takeIn? server glue result = some taken) : AllEncodable taken := by
  cases result with
  | ok answer =>
    obtain rfl := Option.some.inj takes
    refine encodable_append encodable fun set member => ?_
    obtain ⟨own, among, rfl⟩ := List.mem_map.mp member
    exact (whenOk_ok.mp fine own (List.mem_filter.mp among).1).withOwner absolute
  | error failure =>
    unfold takeIn? at takes
    split at takes
    · rename_i same
      cases same
    · cases takes
    · exact Option.some.inj takes ▸ encodable

theorem safe_gatherTypes {server : Name} (absolute : server.absolute = true) (depth : Nat)
    {glue : List RecordSet} (encodable : AllEncodable glue) (types : List RecordType) :
    Safe now (gatherTypes server depth glue types) Gathered.Sound := by
  induction types generalizing glue with
  | nil => exact .pure encodable
  | cons type types ih =>
    unfold gatherTypes
    refine (safe_begin absolute type depth).bind fun turn sound => ?_
    cases turn with
    | asked asked => exact .pure ⟨sound, encodable, absolute⟩
    | finished result =>
      dsimp only
      cases takes : takeIn? server glue result with
      | some taken => exact ih (encodable_takeIn? absolute encodable sound takes)
      | none => exact .pure encodable

/-- What has been gathered is sound, and the servers that are left have absolute names. -/
def SoundlyGathered (gathered : Gathered × List Name) : Prop :=
  gathered.1.Sound ∧ ∀ server ∈ gathered.2, server.absolute = true

theorem safe_gatherServers (types : List RecordType) (depth : Nat) {glue : List RecordSet}
    (encodable : AllEncodable glue) {servers : List Name}
    (absolute : ∀ server ∈ servers, server.absolute = true) :
    Safe now (gatherServers types depth glue servers) SoundlyGathered := by
  induction servers generalizing glue with
  | nil => exact .pure ⟨encodable, absolute⟩
  | cons server servers ih =>
    rw [List.forall_mem_cons] at absolute
    unfold gatherServers
    refine (safe_gatherTypes absolute.1 depth encodable types).bind fun gathered sound => ?_
    cases gathered with
    | complete glue => exact ih sound absolute.2
    | waiting asked glue server types => exact .pure ⟨sound, absolute.2⟩

theorem safe_redirect {inquiry : Inquiry} (sound : inquiry.Sound) {referral : Referral}
    (refers : referral.Sound) {glue : List RecordSet} (encodable : AllEncodable glue) :
    Safe now (redirect inquiry referral glue) Turn.Sound := by
  refine Session.safe_settings.bind fun settings _ => ?_
  refine (Session.safe_onResolver (Resolver.succeeds_onDelegations fun timely =>
    Delegations.succeeds_add refers.servers refers.kind encodable timely)).bind fun _ _ => ?_
  dsimp only
  split
  · exact .pure whenOk_error
  · have next : Inquiry.Sound { inquiry with
        rota := .once ((usableAddresses settings.preference.types glue).map
          (Endpoint.ofAddress · settings.port))
        zone := referral.zone } := ⟨sound.name, Rota.proper_once _⟩
    exact (Inquiry.safe_askNext next).bind fun _ asked => .pure (Turn.sound_ofInquiry asked)

/-! ### Going on -/

/-- A pass goes on soundly to `next`, and so do those around it. -/
def SoundlyGoing (next : Turn × List Gathering) : Prop :=
  next.1.Sound ∧ ∀ gathering ∈ next.2, gathering.Sound

theorem soundlyGoing_alone {turn : Turn} (sound : turn.Sound) : SoundlyGoing (turn, []) :=
  ⟨sound, fun _ member => nomatch member⟩

theorem safe_takeUp {inquiry : Inquiry} (sound : inquiry.Sound) {referral : Referral}
    (refers : referral.Sound) {gathered : Gathered × List Name}
    (gathers : SoundlyGathered gathered) :
    Safe now (takeUp inquiry referral gathered) SoundlyGoing := by
  obtain ⟨glue | ⟨asked, glue, server, types⟩, servers⟩ := gathered
  · exact (safe_redirect sound refers gathers.1).bind fun _ turn =>
      .pure (soundlyGoing_alone turn)
  · obtain ⟨⟨asks, encodable, absolute⟩, others⟩ := gathers
    exact .pure ⟨asks, List.forall_mem_singleton.mpr ⟨sound, refers, encodable, absolute, others⟩⟩

theorem safe_regather {gathering : Gathering} (sound : gathering.Sound)
    {result : Except Failure Answer}
    (fine : WhenOk (fun answer => AllEncodable answer.sets) result) :
    Safe now (regather gathering result) SoundlyGathered := by
  have others {glue : List RecordSet} (glued : AllEncodable glue) : Safe now (do
      gatherServers (← Session.settings).preference.types (gathering.inquiry.depth + 1) glue
        gathering.servers) SoundlyGathered :=
    Session.safe_settings.bind fun settings _ => safe_gatherServers _ _ glued sound.servers
  unfold regather
  cases takes : takeIn? gathering.server gathering.glue result with
  | none => exact others sound.glue
  | some taken =>
    have glued := encodable_takeIn? sound.server sound.glue fine takes
    refine (safe_gatherTypes sound.server _ glued _).bind fun gathered gathers => ?_
    cases gathered with
    | complete glue => exact others gathers
    | waiting asked glue server types => exact .pure ⟨gathers, sound.servers⟩

theorem safe_unwind {turn : Turn} (sound : turn.Sound) {outer : List Gathering}
    (around : ∀ gathering ∈ outer, gathering.Sound) :
    Safe now (unwind turn outer) Progress.Sound := by
  -- The induction is on the passes around, each of which waits soundly.
  induction outer generalizing turn with
  | nil =>
    cases turn with
    | asked asked => exact .pure ⟨sound, around⟩
    | finished result => exact .pure sound
  | cons gathering outer ih =>
    cases turn with
    | asked asked => exact .pure ⟨sound, around⟩
    | finished result =>
      rw [List.forall_mem_cons] at around
      unfold unwind
      refine (safe_regather around.1 sound).bind fun gathered gathers => ?_
      refine (safe_takeUp around.1.inquiry around.1.referral gathers).bind
        fun next goes => ?_
      obtain ⟨turn, inner⟩ := next
      obtain ⟨next, inside⟩ := goes
      cases turn with
      | asked asked => exact .pure ⟨next, List.forall_mem_append.mpr ⟨inside, around.2⟩⟩
      | finished result => exact ih next around.2

/-- A pass for an absolute `name` starts safely. -/
theorem safe_start {name : Name} (absolute : name.absolute = true) (type : RecordType) :
    Safe now (start name type) Progress.Sound :=
  (safe_begin absolute type 0).bind fun _ turn => safe_unwind turn (List.forall_mem_nil _)

theorem safe_refer {inquiry : Inquiry} (sound : inquiry.Sound) {referral : Referral}
    (refers : referral.Sound) : Safe now (refer inquiry referral) SoundlyGoing := by
  refine Session.safe_settings.bind fun settings _ => ?_
  refine (safe_gatherServers _ _ refers.glue fun server member => ?_).bind fun _ gathers =>
    safe_takeUp sound refers gathers
  split at member
  · exact refers.servers.additionalNames server (List.mem_filter.mp member).1
  · cases member

theorem safe_chase {asked : Asked} (sound : asked.Sound) {target : Name}
    (absolute : target.absolute = true) : Safe now (chase asked target) Turn.Sound := by
  refine .bind .get fun session _ => ?_
  split
  · exact .pure whenOk_error
  refine .bind (.modify fun _ sound => sound) fun _ _ => ?_
  refine (Session.safe_consultCache absolute _).bind fun known cached => ?_
  cases known with
  | hit result => exact .pure cached
  | miss target =>
    have inquiry : Inquiry.Sound { asked.inquiry with name := target } := ⟨cached, sound.rota⟩
    exact (Inquiry.safe_askServer inquiry _).bind fun _ next => .pure (Turn.sound_ofInquiry next)

theorem safe_react {asked : Asked} (sound : asked.Sound) {response : Message}
    (encodable : response.Encodable) : Safe now (react asked response) SoundlyGoing := by
  have means := Outcome.sound_classify encodable sound.name asked.inquiry.type
  unfold react
  dsimp only
  generalize Outcome.classify response asked.inquiry.name asked.inquiry.type = outcome at means
  cases outcome with
  | answer found =>
    have encodable : AllEncodable found.sets := means
    exact .pure (soundlyGoing_alone (whenOk_ok.mpr encodable))
  | nxDomain => exact .pure (soundlyGoing_alone whenOk_error)
  | noData => exact .pure (soundlyGoing_alone whenOk_error)
  | «alias» target =>
    have absolute : target.absolute = true := means
    exact (safe_chase sound absolute).bind fun _ turn => .pure (soundlyGoing_alone turn)
  | referral referral =>
    have refers : referral.Sound := means
    dsimp only
    split
    · exact safe_refer sound refers
    · exact (Inquiry.safe_retry sound _).bind fun _ next =>
        .pure (soundlyGoing_alone (Turn.sound_ofInquiry next))

theorem safe_conclude {asked : Asked} (sound : asked.Sound) {result : Settlement}
    (fine : WhenOk Message.Encodable result) : Safe now (conclude asked result) SoundlyGoing := by
  refine (Inquiry.safe_evaluate sound fine).bind fun evaluation means => ?_
  cases evaluation with
  | response response => exact safe_react sound means
  | again next => exact .pure (soundlyGoing_alone means)
  | failed failure => exact .pure (soundlyGoing_alone whenOk_error)

/-- Whatever happens to its query, a `pass` goes on safely. -/
theorem safe_resume {pass : Pass} (sound : pass.Sound) (event : Event) :
    Safe now (pass.resume event) Progress.Sound := by
  refine (Session.safe_happen pass.asked.query event).bind fun happened settles => ?_
  obtain ⟨_ | result, query⟩ := happened
  · exact .pure ⟨sound.asked, sound.outer⟩
  · exact (safe_conclude sound.asked (settles result rfl)).bind fun ⟨turn, inner⟩ ⟨next, inside⟩ =>
      safe_unwind next (List.forall_mem_append.mpr ⟨inside, sound.outer⟩)

end Pass

/-! ## Races -/

/-- A `Run` whose `pass` waits soundly, or has ended with an encodable `answer`. -/
def Run.Sound : Run → Prop
  | .unstarted => True
  | .waiting pass => pass.Sound
  | .ended result => WhenOk (fun answer => AllEncodable answer.sets) result

theorem Run.sound_ofProgress {progress : Progress} (sound : progress.Sound) :
    (Run.ofProgress progress).Sound := by
  cases progress with
  | finished result => exact sound
  | waiting pass => exact sound

/-- A `race` about an absolute name all of whose runs are `Sound`. -/
structure Race.Sound (race : Race) : Prop where
  name : race.name.absolute = true
  runs : ∀ run ∈ race.runs, run.2.Sound

namespace Race

variable {now : Duration}

theorem sound_new {name : Name} (absolute : name.absolute = true) (preferred : RecordType)
    (types : List RecordType) : (new name preferred types).Sound := by
  refine ⟨absolute, fun run member => ?_⟩
  obtain ⟨type, -, rfl⟩ := List.mem_map.mp member
  trivial

theorem safe_advanceRun (fits : RecordType → Run → Bool)
    {advance : RecordType → Run → Op Session Run}
    (each : ∀ type run, run.Sound → Safe now (advance type run) Run.Sound)
    {runs : List (RecordType × Run)} (sound : ∀ run ∈ runs, run.2.Sound) :
    Safe now (advanceRun fits advance runs) fun runs => ∀ run ∈ runs, run.2.Sound := by
  induction runs with
  | nil => exact .pure sound
  | cons run runs ih =>
    obtain ⟨type, run⟩ := run
    rw [List.forall_mem_cons] at sound
    unfold advanceRun
    split
    · exact (each type run sound.1).bind fun _ next =>
        .pure (List.forall_mem_cons.mpr ⟨next, sound.2⟩)
    · exact (ih sound.2).bind fun _ rest => .pure (List.forall_mem_cons.mpr ⟨sound.1, rest⟩)

theorem safe_startRun {race : Race} (sound : race.Sound) (type : RecordType) :
    Safe now (race.startRun type) Sound := by
  refine (safe_advanceRun _ (fun type run own => ?_) sound.runs).bind fun _ runs =>
    .pure ⟨sound.name, runs⟩
  cases run with
  | unstarted =>
    exact (Pass.safe_start sound.name type).bind fun _ next => .pure (Run.sound_ofProgress next)
  | waiting pass => exact .pure own
  | ended result => exact .pure own

theorem safe_resumeRun {race : Race} (sound : race.Sound) (serial : Nat) (event : Event) :
    Safe now (race.resumeRun serial event) Sound := by
  refine (safe_advanceRun _ (fun type run own => ?_) sound.runs).bind fun _ runs =>
    .pure ⟨sound.name, runs⟩
  cases run with
  | waiting pass =>
    exact (Pass.safe_resume own event).bind fun _ next => .pure (Run.sound_ofProgress next)
  | unstarted => exact .pure own
  | ended result => exact .pure own

theorem sound_drop (race : Race) {resolver : Resolver} (sound : resolver.Sound now) :
    (race.drop resolver).2.Sound now :=
  race.holds_drop (fun pass _ => Resolver.sound_drop pass.asked.query) sound

theorem absolute_of_aliasTarget? {race : Race} (sound : race.Sound) {target : Name}
    (leads : race.aliasTarget? = some target) : target.absolute = true := by
  obtain ⟨datum, found, leads⟩ := List.exists_of_findSome?_eq_some leads
  obtain ⟨answer, among, carried⟩ := List.mem_flatMap.mp found
  obtain ⟨set, inside, member⟩ := List.mem_flatMap.mp carried
  obtain ⟨result, ended, is⟩ := List.mem_filterMap.mp among
  obtain ⟨run, ran, ends⟩ := List.mem_filterMap.mp ended
  have own := sound.runs run ran
  obtain ⟨type, run⟩ := run
  cases run with
  | ended result =>
    obtain rfl := Option.some.inj ends
    cases result with
    | error failure => cases is
    | ok answer =>
      obtain rfl := Option.some.inj is
      exact ((whenOk_ok.mp own set inside).data datum member).aliasTarget leads
  | _ => cases ends

end Race

/-! ## Host lookups -/

/-- A `search` below absolute names. -/
def Search.Sound (search : Search) : Prop := ∀ suffix ∈ search.suffixes, suffix.absolute = true

/-- A host `lookup` that goes through a `Sound` race, and then searches below absolute names. -/
structure HostLookup.Sound (lookup : HostLookup) : Prop where
  race : lookup.race.Sound
  search : ∀ search, lookup.search = some search → search.Sound

/-- If a host `lookup` goes on, it does so soundly. -/
def HostProgress.Sound : HostProgress → Prop
  | .finished _ => True
  | .racing lookup => lookup.Sound

namespace HostLookup

variable {now : Duration}

theorem absolute_append? {name suffix next : Name} (absolute : suffix.absolute = true)
    (appended : name.append? suffix = .ok next) : next.absolute = true := by
  unfold Name.append? at appended
  split at appended
  · rename_i own
    exact Except.ok.inj appended ▸ own
  · split at appended
    · exact Except.ok.inj appended ▸ absolute
    · cases appended

theorem safe_tryName {name : Name} (absolute : name.absolute = true) {search : Option Search}
    (later : ∀ own, search = some own → own.Sound) :
    Safe now (tryName name search) HostProgress.Sound := by
  refine .bind .get fun session _ => ?_
  dsimp only
  split
  · exact .pure trivial
  · exact .pure ⟨Race.sound_new absolute _ _, later⟩

theorem safe_tryNext (relative : Name) (lastFailure : Option Failure) {suffixes : List Name}
    (absolute : ∀ suffix ∈ suffixes, suffix.absolute = true) :
    Safe now (tryNext relative lastFailure suffixes) HostProgress.Sound := by
  induction suffixes generalizing lastFailure with
  | nil => exact .pure trivial
  | cons suffix suffixes ih =>
    rw [List.forall_mem_cons] at absolute
    unfold tryNext
    split
    · rename_i name appended
      refine safe_tryName (absolute_append? absolute.1 appended) fun own same => ?_
      exact Option.some.inj same ▸ absolute.2
    · exact ih _ absolute.2

/-- Starting to look up any `host` is `Safe`. -/
theorem safe_begin (host : String) : Safe now (begin host) HostProgress.Sound := by
  unfold begin
  split
  · exact .pure trivial
  split
  · exact .pure trivial
  refine Session.safe_settings.bind fun settings absolute => ?_
  split
  · exact safe_tryName rfl fun _ same => nomatch same
  · refine safe_tryNext _ _ fun suffix member => ?_
    unfold searchList at member
    split at member
    · exact List.mem_singleton.mp member ▸ rfl
    · exact absolute suffix member

theorem safe_settle {search : Option Search} (later : ∀ own, search = some own → own.Sound)
    (result : Except Failure FoundHosts) : Safe now (settle search result) HostProgress.Sound := by
  unfold settle
  split
  · split
    · exact .pure trivial
    · exact safe_tryNext _ _ (later _ rfl)
  · exact .pure trivial

theorem safe_askAlias {lookup : HostLookup} (sound : lookup.Sound) (failure : Failure) :
    Safe now (lookup.askAlias failure) HostProgress.Sound := by
  intro before good
  by_cases left : leavesAliasOpen failure ∧ ¬before.allowance.aliasAsked
  · simp only [askAlias, Op.bind_apply, Op.get_apply, if_pos left]
    exact ⟨_, _, rfl, good, Race.sound_new sound.race.name _ _, sound.search⟩
  · simp only [askAlias, Op.bind_apply, Op.get_apply, if_neg left]
    exact safe_settle sound.search _ before good

theorem safe_followAlias {lookup : HostLookup} (sound : lookup.Sound) (failure : Failure) :
    Safe now (lookup.followAlias failure) HostProgress.Sound := by
  unfold followAlias
  split
  · rename_i target leads
    split
    · exact safe_settle sound.search _
    · exact Session.safe_settings.bind fun settings _ => .pure
        ⟨Race.sound_new (Race.absolute_of_aliasTarget? sound.race leads) _ _, sound.search⟩
  · exact safe_settle sound.search _

/-- When its race is closed, a host `lookup` goes on safely. -/
theorem safe_conclude {lookup : HostLookup} (sound : lookup.Sound) :
    Safe now lookup.conclude HostProgress.Sound := by
  refine (Session.safe_withResolver (P := fun _ => True) fun resolver good =>
    ⟨lookup.race.sound_drop good, trivial⟩).bind fun _ _ => ?_
  split
  · split
    · exact safe_settle sound.search _
    · exact safe_askAlias sound _
  · exact safe_followAlias sound _
  · exact safe_settle sound.search _

end HostLookup

/-! ## Calls -/

/-- What a call does is `Sound`. -/
def Activity.Sound : Activity → Prop
  | .racing lookup => lookup.Sound
  | .asking asked => asked.Sound
  | .requested | .over _ => True

/-- What the `call` does is `Sound`. -/
def Call.Sound (call : Call) : Prop := call.activity.Sound

namespace Call

variable {now : Duration}

theorem sound_new (request : Request) (budget : Nat) : (new request budget).Sound := trivial

theorem sound_notify {call : Call} (sound : call.Sound) (serial : Nat) (event : Event) :
    (call.notify serial event).Sound := sound

theorem sound_enterRace {call : Call} (sound : call.Sound) : call.enterRace.Sound := by
  unfold enterRace
  split
  · exact sound
  · exact sound

theorem sound_ofHost {progress : HostProgress} (sound : progress.Sound) :
    (ofHost progress).Sound := by
  cases progress with
  | racing lookup => exact sound
  | finished result => trivial

theorem succeeds_goOn (call : Call) {op : Op Session Activity} (safe : Safe now op Activity.Sound) :
    Op.Succeeds (Resolver.Sound now) (call.goOn op) Sound := by
  intro before good
  obtain ⟨activity, after, ran, kept, sound⟩ := safe ⟨before, call.allowance⟩ good
  refine ⟨{ call with activity := activity, allowance := after.allowance }, after.resolver, ?_,
    kept, sound⟩
  unfold goOn
  rw [ran]
  rfl

theorem safe_beginQuestion (name : Name) (type : RecordType) :
    Safe now (beginQuestion name type) Activity.Sound := by
  refine (Session.safe_withResolver fun _ => Resolver.sound_configuredRota).bind fun rota proper =>
    ?_
  have inquiry : Inquiry.Sound ⟨type, 0, name.toAbsolute, rota, .root, none⟩ := ⟨rfl, proper⟩
  refine (Inquiry.safe_askNext inquiry).bind fun result asked => .pure ?_
  cases result with
  | ok next => exact (whenOk_ok.mp asked : next.Sound)
  | error failure => trivial

theorem safe_resumeQuestion {asked : Asked} (sound : asked.Sound) (event : Event) :
    Safe now (resumeQuestion asked event) Activity.Sound := by
  refine (Session.safe_happen asked.query event).bind fun happened settles => ?_
  obtain ⟨_ | result, query⟩ := happened
  · exact .pure (show Asked.Sound { asked with query := query } from sound)
  refine (Inquiry.safe_evaluate sound (settles result rfl)).bind fun evaluation means => ?_
  cases evaluation with
  | response response => exact .pure trivial
  | again next => exact .pure (show next.Sound from means)
  | failed failure => exact .pure trivial

theorem succeeds_attend {call : Call} (sound : call.Sound) (matter : Matter) :
    Op.Succeeds (Resolver.Sound now) (call.attend matter) Sound := by
  obtain ⟨request, allowance, activity, matters⟩ := call
  cases activity with
  | requested =>
    cases matter with
    | begin =>
      cases request with
      | host name =>
        exact (succeeds_goOn _ ((HostLookup.safe_begin name).map fun _ => sound_ofHost)).bind
          fun _ next => .pure (sound_enterRace next)
      | question name type => exact succeeds_goOn _ (safe_beginQuestion name type)
    | start type => exact .pure sound
    | event serial event => exact .pure sound
  | racing lookup =>
    have own : lookup.Sound := sound
    -- only the race changes, and the search stays what it is
    have goesOn {op : Op Session Race} (safe : Safe now op Race.Sound) :
        Safe now (do return .racing { lookup with race := ← op }) Activity.Sound :=
      safe.bind fun race next => .pure (show HostLookup.Sound { lookup with race := race } from
        ⟨next, own.search⟩)
    cases matter with
    | begin => exact .pure sound
    | start type => exact succeeds_goOn _ (goesOn (Race.safe_startRun own.race type))
    | event serial event =>
      exact succeeds_goOn _ (goesOn (Race.safe_resumeRun own.race serial event))
  | asking asked =>
    cases matter with
    | begin => exact .pure sound
    | start type => exact .pure sound
    | event serial event =>
      unfold attend
      dsimp only
      split
      · exact succeeds_goOn _ (safe_resumeQuestion sound event)
      · exact .pure sound
  | «over» result => exact .pure sound

theorem succeeds_closeRace {call : Call} (sound : call.Sound) :
    Op.Succeeds (Resolver.Sound now) call.closeRace fun next =>
      ∀ after, next = some after → after.Sound := by
  unfold closeRace
  split
  · rename_i lookup is
    rw [Call.Sound, is] at sound
    split
    · refine (succeeds_goOn call ((HostLookup.safe_conclude sound).map fun _ => sound_ofHost)).bind
        fun next goes => .pure fun after same => ?_
      exact Option.some.inj same ▸ sound_enterRace goes
    · exact .pure fun _ same => nomatch same
  · exact .pure fun _ same => nomatch same

/-- Whatever has come up, a `call` takes its next `step` safely. -/
theorem succeeds_step {call : Call} (sound : call.Sound) :
    Op.Succeeds (Resolver.Sound now) call.step fun next =>
      ∀ after, next = some after → after.Sound := by
  unfold step
  split
  · rename_i matter matters is
    have rest : Call.Sound { call with matters := matters } := sound
    exact (succeeds_attend rest matter).bind fun next goes => .pure fun after same =>
      Option.some.inj same ▸ goes
  · exact succeeds_closeRace sound

theorem sound_drop (call : Call) {resolver : Resolver} (sound : resolver.Sound now) :
    (call.drop resolver).2.Sound now := by
  unfold drop
  cases call.activity with
  | racing lookup => exact lookup.race.sound_drop sound
  | asking asked => exact Resolver.sound_drop asked.query sound
  | requested => exact sound
  | «over» result => exact sound

end Call

end NameResolution
