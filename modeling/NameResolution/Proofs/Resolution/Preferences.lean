import NameResolution.Proofs.HostTables
import NameResolution.Proofs.Resolution.CallInvariants
import NameResolution.Proofs.Resolution.Contacts
import NameResolution.Proofs.Resolution.Families

/-!
# The order of the hosts that are found

A call finds the addresses of a host in the host table, or by a race. A race has the order of the
preference that is set, whatever the servers send and in whichever order its passes end. The host
table has the order in which addresses were added to it, whatever is preferred.

* `Horizon.Opens`: how a host lookup goes on between two races.
* `Horizon.Orders`: the race of a host lookup is for the types that are preferred, or for an alias.
  `Horizon.tracks_stride`: calls keep this.
* `Call.Stride.finds`: what a call finds is in the host table, or its race has found it.
* `System.InOrder`: a system with settings and hosts, the host lookups of which are in order.
  `System.inOrder_start`: every system begins like this. `System.InOrder.later`: it stays like this.
* `System.found_in_order`: what is found by a race has the order of the preference; what the host
  table has is found as it is.
-/

namespace NameResolution

/-! ## Host lookups -/

namespace Horizon

/-- How a host lookup goes on between two `races`: it has failed, or it has found something, or it
has a race for the types that are preferred, or for an alias. -/
inductive Opens (horizon : Horizon) (Found : FoundHosts → Prop) : HostProgress → Prop
  | fails (failure : Failure) : Opens horizon Found (.finished (.error failure))
  | finds {found : FoundHosts} (own : Found found) : Opens horizon Found (.finished (.ok found))
  | races (name : Name) (purpose : Purpose) (search : Option Search) : Opens horizon Found
    (.racing ⟨.forAddresses name horizon.settings.preference, purpose, search⟩)
  | asks (name : Name) (failure : Failure) (search : Option Search) : Opens horizon Found
    (.racing ⟨.forAlias name, .aliasQuestion failure, search⟩)

variable {horizon : Horizon} {Found Other : FoundHosts → Prop}

theorem Opens.mono {progress : HostProgress} (opens : horizon.Opens Found progress)
    (more : ∀ found, Found found → Other found) : horizon.Opens Other progress := by
  cases opens with
  | fails failure => exact .fails failure
  | finds own => exact .finds (more _ own)
  | races name purpose search => exact .races name purpose search
  | asks name failure search => exact .asks name failure search

/-- The host table of the `horizon` has the addresses of the host. -/
def Lists (horizon : Horizon) (found : FoundHosts) : Prop :=
  horizon.hosts.addresses? found.canonical = some found.addresses

/-- What is found in the host table only may be found elsewhere as well, so `Opens` with the table
alone gives `Opens` with it and more. -/
theorem opens_of_lists {op : Op Session HostProgress}
    (keeps : horizon.Keeps op (horizon.Opens horizon.Lists)) :
    horizon.Keeps op (horizon.Opens fun found => horizon.Lists found ∨ Other found) :=
  keeps.imp fun _ opens => opens.mono fun _ => .inl

open HostLookup

theorem opens_tryName (name : Name) (search : Option Search) :
    horizon.Keeps (tryName name search) (horizon.Opens horizon.Lists) := by
  refine Op.Keeps.get.bind fun session bounds => ?_
  dsimp only
  rw [bounds.hosts, bounds.settings]
  split
  · rename_i addresses lists
    exact .pure (.finds lists)
  · exact .pure (.races name .addresses search)

theorem opens_tryNext (relative : Name) (lastFailure : Option Failure) (suffixes : List Name) :
    horizon.Keeps (tryNext relative lastFailure suffixes) (horizon.Opens horizon.Lists) := by
  induction suffixes generalizing lastFailure with
  | nil => exact .pure (.fails _)
  | cons suffix suffixes ih =>
    unfold tryNext
    split
    · exact opens_tryName _ _
    · exact ih _

theorem opens_begin (host : String) :
    horizon.Keeps (HostLookup.begin host) (horizon.Opens fun found =>
      horizon.Lists found ∨ ∃ address, Address.ofText? host = some address) := by
  unfold HostLookup.begin
  split
  · rename_i address is
    exact .pure (.finds (.inr ⟨address, is⟩))
  split
  · exact .pure (.fails _)
  refine keeps_settings.bind fun settings _ => ?_
  split
  · exact opens_of_lists (opens_tryName _ _)
  · exact opens_of_lists (opens_tryNext _ _ _)

theorem opens_settle (search : Option Search) (result : Except Failure FoundHosts) :
    horizon.Keeps (settle search result)
      (horizon.Opens fun found => horizon.Lists found ∨ result = .ok found) := by
  unfold settle
  split
  · split
    · exact .pure (.fails _)
    · exact opens_of_lists (opens_tryNext _ _ _)
  · cases result with
    | ok found => exact .pure (.finds (.inr rfl))
    | error failure => exact .pure (.fails failure)

/-- Giving up on a name (`settle` with a failure) finds something in the host table at most. -/
theorem opens_settle_error (search : Option Search) (failure : Failure) :
    horizon.Keeps (settle search (.error failure)) (horizon.Opens horizon.Lists) :=
  (opens_settle search (.error failure)).imp fun _ opens =>
    opens.mono fun _ found => found.resolve_right nofun

theorem opens_askAlias (lookup : HostLookup) (failure : Failure) :
    horizon.Keeps (lookup.askAlias failure) (horizon.Opens horizon.Lists) := by
  refine Op.Keeps.get.bind fun session bounds => ?_
  split
  · have sets : horizon.Keeps (set { session with
        allowance := { session.allowance with aliasAsked := true } } : Op Session Unit)
        fun _ => True := .of_state fun _ _ => bounds
    exact sets.bind fun _ _ => .pure (.asks _ _ _)
  · exact opens_settle_error _ _

theorem opens_followAlias (lookup : HostLookup) (failure : Failure) :
    horizon.Keeps (lookup.followAlias failure) (horizon.Opens horizon.Lists) := by
  unfold followAlias
  split
  · split
    · exact opens_settle_error _ _
    · refine keeps_settings.bind fun settings same => ?_
      rw [same]
      exact .pure (.races _ _ _)
  · exact opens_settle_error _ _

theorem Bounds.drop_race {resolver : Resolver} (bounds : horizon.Bounds resolver) (race : Race) :
    horizon.Bounds (race.drop resolver).2 :=
  race.holds_drop (fun pass _ bounds => bounds.drop_pass pass) bounds

/-- A host `lookup` finds what its `race` has found, or what the host table has. -/
theorem opens_conclude (lookup : HostLookup) :
    horizon.Keeps lookup.conclude (horizon.Opens fun found =>
      horizon.Lists found ∨ ¬lookup.AsksAlias ∧ lookup.race.addresses = .ok found) := by
  have drops : horizon.Keeps (Session.withResolver lookup.race.drop) fun _ => True :=
    .of_state fun _ bounds => bounds.drop_race lookup.race
  -- What is settled is what the race has found, unless the race was for a bare alias.
  have settles (plain : ∀ failure, lookup.purpose ≠ .aliasQuestion failure) {search : Option Search}
      {result : Except Failure FoundHosts} (gives : lookup.race.addresses = result) :
      horizon.Keeps (settle search result) (horizon.Opens fun found =>
        horizon.Lists found ∨ ¬lookup.AsksAlias ∧ lookup.race.addresses = .ok found) :=
    (opens_settle search result).imp fun _ opens => opens.mono fun _ own =>
      own.imp_right fun same => ⟨fun ⟨failure, asks⟩ => plain failure asks, gives.trans same⟩
  refine drops.bind fun _ _ => ?_
  split
  · rename_i purpose
    split
    · rename_i found gives
      exact settles (fun _ => by rw [purpose]; nofun) gives
    · exact opens_of_lists (opens_askAlias _ _)
  · exact opens_of_lists (opens_followAlias _ _)
  · rename_i purpose
    exact settles (fun _ => by rw [purpose]; nofun) rfl

/-! ## Calls -/

/-- The race of the `lookup` is for the types that are preferred, unless it is for an alias. All its
passes are in the course of a run. -/
structure Orders (horizon : Horizon) (lookup : HostLookup) : Prop where
  types : ¬lookup.AsksAlias → lookup.race.types = horizon.settings.preference.types
  goes : lookup.race.Goes

theorem Opens.orders {lookup : HostLookup} (opens : horizon.Opens Found (.racing lookup)) :
    horizon.Orders lookup := by
  cases opens with
  | races name purpose search =>
    refine ⟨fun _ => ?_, Race.goes_new _ _ _⟩
    simp [Race.forAddresses, Race.new, Race.types, Function.comp_def]
  | asks name failure search =>
    exact ⟨fun plain => absurd ⟨failure, rfl⟩ plain, Race.goes_new _ _ _⟩

theorem Orders.proceeds {lookup : HostLookup} (orders : horizon.Orders lookup) {front back : Runs}
    {type : RecordType} {run later : Run} (runs : lookup.race.runs = front ++ (type, run) :: back)
    (own : later.Goes lookup.race.name type) :
    horizon.Orders (lookup.withRuns (front ++ (type, later) :: back)) where
  types plain := by
    rw [← orders.types plain, Race.types, Race.types, runs]
    simp [HostLookup.withRuns]
  goes := orders.goes.proceeds runs own

/-- The host lookup of the `call`, if it is one, is in order. -/
def Tracks (horizon : Horizon) (call : Call) : Prop :=
  ∀ lookup, call.activity = .racing lookup → horizon.Orders lookup

variable {call next : Call} {resolver after : Resolver}

theorem tracks_enterRace {progress : HostProgress} {session : Session}
    (opens : horizon.Opens Found progress) :
    horizon.Tracks (call.goingOn (Call.ofHost progress) session).enterRace := by
  intro lookup racing
  rw [Call.activity_enterRace] at racing
  obtain rfl := Call.ofHost_eq_racing.mp racing
  exact opens.orders

theorem tracks_run {lookup : HostLookup} (racing : call.activity = .racing lookup)
    (tracks : horizon.Tracks call) {front back : Runs} {type : RecordType} {run : Run}
    (runs : lookup.race.runs = front ++ (type, run) :: back) {progress : Progress}
    (conducted : Pass.Conducted lookup.race.name type progress) {session : Session} :
    horizon.Tracks (call.goingOn
      (.racing (lookup.withRuns (front ++ (type, .ofProgress progress) :: back))) session) := by
  intro other same
  obtain rfl := Activity.racing.inj same
  exact (tracks lookup racing).proceeds runs (Run.goes_ofProgress conducted)

theorem tracks_of_single (single : call.activity.IsSingle) : horizon.Tracks call := by
  intro lookup racing
  rw [racing] at single
  exact single.elim

/-- Host lookups stay in order whatever their calls do: a `Stride` keeps what `horizon` says of
them. -/
theorem tracks_stride (bounds : horizon.Bounds resolver)
    (stride : Call.Stride call resolver next after) (tracks : horizon.Tracks call) :
    horizon.Tracks next := by
  cases stride with
  | begins idle first ran own =>
    exact tracks_enterRace ((opens_begin _).ensures _ bounds _ _ ran).2
  | asks idle first ran => exact tracks_of_single (Call.yields_beginQuestion _ _ _ _ _ ran).2.1
  | starts racing first runs ran =>
    exact tracks_run racing tracks runs
      (Pass.ensures_start _ _ (call.session resolver) bounds.cache _ _ ran).2
  | @resumes lookup type serial event matters front back pass progress session racing first runs
      addressed ran =>
    have goes : Pass.Conducted lookup.race.name type (.waiting pass) :=
      (tracks lookup racing).goes type (.waiting pass) (runs ▸ by simp)
    exact tracks_run racing tracks runs
      (Pass.ensures_resume goes event (call.session resolver) bounds.cache _ _ ran).2
  | answers asking first ran =>
    refine tracks_of_single ?_
    obtain ⟨query, rfl, -⟩ | ⟨-, alone, -⟩ := Call.resumeQuestion_cases ran
    · trivial
    · exact alone
  | closes racing none ran =>
    exact tracks_enterRace ((opens_conclude _).ensures _ bounds _ _ ran).2
  | passes first begun started strange => exact tracks

end Horizon

namespace Call

variable {call next : Call} {resolver after : Resolver}

/-- The hosts that a `call` has found, if its next step ends it. -/
def found? (call : Call) (resolver : Resolver) : Option FoundHosts :=
  if call.isOver then none
  else match (call.step resolver).1 with
    | .ok (some next) =>
      match next.activity with
      | .over (.ok (.hosts found)) => some found
      | _ => none
    | _ => none

theorem found?_eq_some {found : FoundHosts} (finds : call.found? resolver = some found) :
    call.isOver = false ∧ ∃ next after, call.step resolver = (.ok (some next), after) ∧
      next.activity = .over (.ok (.hosts found)) := by
  unfold found? at finds
  split at finds
  · cases finds
  rename_i busy
  refine ⟨by simpa using busy, ?_⟩
  split at finds
  · rename_i next stepped
    split at finds
    · rename_i result activity
      obtain rfl := Option.some.inj finds
      exact ⟨next, _, Prod.ext stepped rfl, activity⟩
    · cases finds
  · cases finds

theorem ofHost_eq_hosts {progress : HostProgress} {found : FoundHosts}
    (finds : ofHost progress = .over (.ok (.hosts found))) : progress = .finished (.ok found) := by
  rcases progress with (failure | result) | lookup <;> cases finds
  rfl

/-- A single question finds no `hosts`. -/
theorem beginQuestion_ne_hosts {name : Name} {type : RecordType} {before after : Session}
    {activity : Activity} (ran : beginQuestion name type before = (.ok activity, after))
    (found : FoundHosts) : activity ≠ .over (.ok (.hosts found)) := by
  rintro rfl
  obtain ⟨rota, _, -, ran⟩ := Op.bind_eq_ok.mp ran
  obtain ⟨result, _, -, rest⟩ := Op.bind_eq_ok.mp ran
  cases result <;> cases rest

theorem resumeQuestion_ne_hosts {asked : Asked} {event : Event} {before after : Session}
    {activity : Activity} (ran : resumeQuestion asked event before = (.ok activity, after))
    (found : FoundHosts) : activity ≠ .over (.ok (.hosts found)) := by
  rintro rfl
  obtain ⟨⟨settled, query⟩, _, -, ran⟩ := Op.bind_eq_ok.mp ran
  cases settled with
  | none => cases ran
  | some result =>
    obtain ⟨evaluation, _, -, rest⟩ := Op.bind_eq_ok.mp ran
    cases evaluation <;> cases rest

/-- What a `call` for a `host` finds is in the host table, or its `race` has found it. -/
theorem Stride.finds {horizon : Horizon} (bounds : horizon.Bounds resolver)
    (stride : Stride call resolver next after) {host : String} (asks : call.request = .host host)
    (named : Address.ofText? host = none) (busy : call.isOver = false) {found : FoundHosts}
    (finds : next.activity = .over (.ok (.hosts found))) :
    horizon.Lists found ∨ ∃ lookup, call.activity = .racing lookup ∧ ¬lookup.AsksAlias ∧
      lookup.race.addresses = .ok found := by
  -- Only the beginning of a lookup and the closing of its race can find hosts.
  cases stride with
  | begins idle first ran own =>
    rw [activity_enterRace] at finds
    obtain rfl := ofHost_eq_hosts finds
    obtain rfl := Request.host.inj (own.symm.trans asks)
    obtain ⟨-, opens⟩ := (Horizon.opens_begin _).ensures _ bounds _ _ ran
    cases opens with
    | finds own =>
      refine .inl (own.resolve_right ?_)
      rintro ⟨address, is⟩
      cases named.symm.trans is
  | asks idle first ran => exact absurd finds (beginQuestion_ne_hosts ran found)
  | starts racing first runs ran => cases finds
  | resumes racing first runs addressed ran => cases finds
  | answers asking first ran => exact absurd finds (resumeQuestion_ne_hosts ran found)
  | closes racing none ran =>
    rw [activity_enterRace] at finds
    obtain rfl := ofHost_eq_hosts finds
    obtain ⟨-, opens⟩ := (Horizon.opens_conclude _).ensures _ bounds _ _ ran
    cases opens with
    | finds own => exact own.imp_right fun ⟨plain, gives⟩ => ⟨_, racing, plain, gives⟩
  | passes first begun started strange =>
    have finds : call.activity = .over (.ok (.hosts found)) := finds
    simp [isOver, finds] at busy

end Call

namespace System

/-- The resolver has these `settings` and `hosts`, and the host lookups of all calls are in order. -/
structure InOrder (settings : Settings) (hosts : HostTable) (system : System) : Prop where
  within : system.Within ⟨settings, hosts, fun _ => True⟩
  tracks : ∀ call ∈ system.calls, Horizon.Tracks ⟨settings, hosts, fun _ => True⟩ call

theorem inOrder_start (settings : Settings) (hosts : HostTable) (hook : Hook)
    (limits : CacheSettings) (starts : Nat → UInt16) :
    (start settings hosts hook limits starts).InOrder settings hosts :=
  ⟨within_start settings hosts hook limits starts _, List.forall_mem_nil _⟩

/-- Host lookups stay in order whatever happens: a system that is `InOrder` is so after any
`happenings`. -/
theorem InOrder.later {settings : Settings} {hosts : HostTable} {system : System}
    (inOrder : system.InOrder settings hosts) (happenings : List Happening) :
    (later happenings system).InOrder settings hosts := by
  have heard : HeardBy ⟨settings, hosts, fun _ => True⟩ happenings := fun _ _ => trivial
  refine ⟨inOrder.within.later heard, calls_afterwards heard.withstands (fun _ _ _ => nofun)
    (fun _ _ _ => id) ?_ inOrder.within inOrder.tracks⟩
  exact fun _ _ _ _ _ holds ran => Horizon.tracks_stride holds.1 (Call.stride_of_step ran)

/-- The order of what a call for a host finds.

Whatever happens to a `system` that is `InOrder`, and in whichever order the passes of a `call` end,
what the call finds for the name of a host is not empty. If it was not in the `hosts`, it `Honours`
the preference: the addresses are grouped by the families that are looked up, those of a family are
all that the pass for it has found, and the name is that of the first family that has an answer. What
the `hosts` have is found as it is there, whatever is preferred. Every system is `InOrder` at its
`start`, wherever the searches for IDs start. -/
theorem found_in_order {settings : Settings} {hosts : HostTable} {system : System}
    (built : hosts.Built) (inOrder : system.InOrder settings hosts)
    (happenings : List Happening) {call : Call} {host : String} {found : FoundHosts}
    (member : call ∈ (later happenings system).calls) (asks : call.request = .host host)
    (named : Address.ofText? host = none)
    (finds : call.found? (later happenings system).resolver = some found) :
    (found.addresses ≠ [] ∧ (hosts.addresses? found.canonical = some found.addresses ∨
      ∃ lookup, call.activity = .racing lookup ∧ found.Honours settings.preference lookup.race)) ∧
    ∀ settings hosts hook limits starts,
      (start settings hosts hook limits starts).InOrder settings hosts := by
  refine ⟨?_, inOrder_start⟩
  obtain ⟨⟨bounds, -⟩, tracks⟩ := inOrder.later happenings
  obtain ⟨busy, next, after, ran, ends⟩ := Call.found?_eq_some finds
  obtain listed | ⟨lookup, racing, plain, gives⟩ :=
    (Call.stride_of_step ran).finds bounds asks named busy ends
  · exact ⟨built.filled.ne_nil listed, .inl listed⟩
  · have orders := tracks call member lookup racing
    have honours := orders.goes.honours (orders.types plain) gives
    exact ⟨honours.filled, .inr ⟨lookup, racing, honours⟩⟩

/-! ### A host that is found by a race -/

/-- The response to the query for addresses of `a.`, with an address. -/
def addressAnswer : Message :=
  ⟨⟨0, 129, 128⟩, [.internet (.top 97) .a],
    [⟨.top 97, .internet, 3600, .a (.ofOctets 192 0 2 7)⟩], [], []⟩

def answerOctets : Octets :=
  #[0, 0, 129, 128, 0, 1, 0, 1, 0, 0, 0, 0, 1, 97, 0, 0, 1, 0, 1,
    192, 12, 0, 1, 0, 1, 0, 0, 14, 16, 0, 4, 192, 0, 2, 7]

theorem decode_addressAnswer : Message.decode answerOctets = .ok addressAnswer := by
  have host : Spells answerOctets 12 (Name.top 97).labels 15 := .label (by decide) (.root (by decide))
  have owner : Spells answerOctets 19 (Name.top 97).labels 21 :=
    .pointer (by decide) (by decide) (by decide) host
  have question : Question.decoder.Reads (· = .internet (.top 97) .a) answerOctets 12 19 :=
    (Name.reads_of_spells host (by decide)).bind fun _ own => ⟨_, rfl, by rw [own]; rfl⟩
  have address : Record.decoder.Reads
      (· = ⟨.top 97, .internet, 3600, .a (.ofOctets 192 0 2 7)⟩) answerOctets 19 35 :=
    Record.reads (Name.reads_of_spells owner (by decide)) ⟨_, rfl, rfl⟩ ⟨_, rfl, rfl⟩
      ⟨_, rfl, rfl⟩ ⟨4, rfl, rfl⟩ ⟨_, rfl, rfl⟩ (by decide) rfl
  exact Message.decode_of_reads ⟨_, rfl, rfl⟩ ⟨1, rfl, rfl⟩ ⟨1, rfl, rfl⟩ ⟨0, rfl, rfl⟩
    ⟨0, rfl, rfl⟩ question.single address.single .none .none

/-- A lookup has heard the response, and still waits for addresses of the other family. -/
def answeredLookup : List Happening :=
  sampleLookup ++ [.arrival sampleServer answerOctets, .event 0 1 .roused, .step 0]

theorem found?_answeredLookup :
    ((later answeredLookup sampleStart).calls.map fun call =>
      (call.request, call.found? (later answeredLookup sampleStart).resolver)) =
        [(.host "a.", some ⟨.top 97, [.v4 (.ofOctets 192 0 2 7)]⟩)] := by
  have waits : later answeredLookup sampleStart = later [.event 0 1 .roused, .step 0]
      ((later sampleLookup sampleStart).take sampleServer answerOctets addressAnswer) := by
    unfold answeredLookup
    rw [later_append, later_arrival decode_addressAnswer rfl]
  rw [waits]
  decide +kernel

/-- The `Address` is found as soon as the pass for the preferred family has it. -/
theorem found_in_order_answered : HostTable.Built .empty ∧
    sampleStart.InOrder (Settings.new.addServer sampleServer) .empty ∧
    Address.ofText? "a." = none ∧
    ∃ call ∈ (later answeredLookup sampleStart).calls, call.request = .host "a." ∧
      call.found? (later answeredLookup sampleStart).resolver =
        some ⟨.top 97, [.v4 (.ofOctets 192 0 2 7)]⟩ ∧
      ∃ lookup, call.activity = .racing lookup ∧
        FoundHosts.Honours ⟨.top 97, [.v4 (.ofOctets 192 0 2 7)]⟩ .ipv4Preferred lookup.race := by
  obtain ⟨call, rest, only, own, -⟩ := List.map_eq_cons_iff.mp found?_answeredLookup
  obtain ⟨asks, finds⟩ := Prod.mk.inj own
  have member : call ∈ (later answeredLookup sampleStart).calls := only ▸ List.mem_cons_self
  have named : Address.ofText? "a." = none := by decide
  have inOrder : sampleStart.InOrder (Settings.new.addServer sampleServer) .empty :=
    inOrder_start _ _ .default .default fun _ => 0
  obtain ⟨⟨-, order⟩, -⟩ := found_in_order .empty inOrder answeredLookup member asks named finds
  exact ⟨.empty, inOrder, named, call, member, asks, finds, order.resolve_left nofun⟩

/-! ### Hosts in a host table -/

/-- A host table that has an address of either family for `a.`. -/
def dualHosts : HostTable :=
  (HostTable.empty.addForward (.top 97) (.v6 otherAddress)).addForward (.top 97)
    (.v4 (.ofOctets 192 0 2 7))

def listedStart : System := .start Settings.new dualHosts .default .default

/-- A `host` in the host table is found with its `addresses` as they were added, although those of
the other family are preferred. -/
theorem finds_as_listed :
    Settings.new.preference = .ipv4Preferred ∧ Address.ofText? "a." = none ∧
      ∃ call ∈ (later [.request (.host "a.")] listedStart).calls, call.request = .host "a." ∧
        ∃ found, call.found? (later [.request (.host "a.")] listedStart).resolver = some found ∧
          found.addresses ≠ Settings.new.preference.types.flatMap fun type =>
            found.addresses.filter (·.family = type) := by
  refine ⟨rfl, by decide, _, List.mem_singleton_self _, rfl,
    ⟨.top 97, [.v6 otherAddress, .v4 (.ofOctets 192 0 2 7)]⟩, by decide +kernel, by decide⟩

end System

end NameResolution
