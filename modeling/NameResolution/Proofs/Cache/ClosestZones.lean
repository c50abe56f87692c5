import NameResolution.Proofs.Cache.Accounts

/-!
# The closest zone with servers

The zones around a name are tried from the top of the tree down to the name, and each one that has
servers with addresses takes the place of the one before. So what is left is the longest suffix of
the name of this kind.

* `Delegations.View.IsClosest`: this suffix, by the record sets that count.
  `Delegations.View.deepest_eq`, `Delegations.View.isClosest_iff`: it is what is left.
* `Delegations.Moment.serversFor_closest`: what is found for a name are the servers of the closest
  zone by what stands, and nothing if there is no such zone.
* `Delegations.Moment.Follows.serversFor_refused`: a server whose name is not absolute spoils this.
-/

namespace NameResolution

namespace Delegations

/-! ## The closest zone -/

namespace View

variable (view : View)

/-- The `servers` of a `zone`. -/
def servers (zone : Name) : List Name :=
  (view zone .ns).toList.flatMap RecordSet.additionalNames

/-- The `addresses` of a `server`, those of the fourth version first. -/
def addresses (server : Name) : List Address :=
  [RecordType.a, .aaaa].flatMap fun type => RecordSet.addresses (view server type).toList

/-- The addresses of the servers of a `zone`, in the order of these, with a `port`. -/
def endpoints (zone : Name) (port : UInt16) : List Endpoint :=
  ((view.servers zone).flatMap view.addresses).map (Endpoint.ofAddress · port)

/-- A `zone` below the root with a server that has an address. -/
def Serves (zone : Name) : Prop :=
  zone.isRoot = false ∧ ∃ server ∈ view.servers zone, view.addresses server ≠ []

/-- The first of the suffixes of a `name` that is a zone with servers, with the endpoints of
these. -/
def closest? (name : Name) (port : UInt16) : Option (Name × List Endpoint) :=
  ((name.suffixes.filter (!·.isRoot)).find? fun zone => !(view.endpoints zone port).isEmpty).map
    fun zone => (zone, view.endpoints zone port)

/-- The longest suffix of a `name` that is a `zone` with servers. -/
structure IsClosest (name zone : Name) : Prop where
  around : zone ∈ name.suffixes
  serves : view.Serves zone
  longest : ∀ other ∈ name.suffixes, view.Serves other → other.labels.length ≤ zone.labels.length

variable {view}

theorem serverAddresses_eq {server : Name} (absolute : server.absolute = true)
    (types : List RecordType) : view.serverAddresses server types =
      .ok (types.flatMap fun type => RecordSet.addresses (view server type).toList) := by
  induction types with
  | nil => rfl
  | cons type types ih =>
    rw [serverAddresses, answer, if_pos absolute, ih]
    rfl

theorem allAddresses_eq {servers : List Name}
    (absolute : ∀ server ∈ servers, server.absolute = true) :
    view.allAddresses servers = .ok (servers.flatMap view.addresses) := by
  induction servers with
  | nil => rfl
  | cons server servers ih =>
    rw [List.forall_mem_cons] at absolute
    rw [allAddresses, serverAddresses_eq absolute.1, ih absolute.2]
    rfl

theorem zoneAddresses_eq {zone : Name} (absolute : zone.absolute = true)
    (known : ∀ server ∈ view.servers zone, server.absolute = true) :
    view.zoneAddresses zone = .ok ((view.servers zone).flatMap view.addresses) := by
  unfold servers at known ⊢
  unfold zoneAddresses answer
  rw [if_pos absolute]
  cases given : view zone .ns with
  | none => rfl
  | some set =>
    rw [given, Option.toList_some, List.flatMap_singleton] at known
    rw [Option.toList_some, List.flatMap_singleton]
    exact allAddresses_eq known

theorem serves_iff {zone : Name} (port : UInt16) :
    view.Serves zone ↔ zone.isRoot = false ∧ view.endpoints zone port ≠ [] := by
  simp [Serves, endpoints]

/-- A `server` whose name is not absolute cannot be looked up. -/
theorem zoneAddresses_refused {zone : Name} (absolute : zone.absolute = true) {server : Name}
    (listed : server ∈ view.servers zone) (relative : server.absolute = false) :
    ∃ misuse, view.zoneAddresses zone = .error misuse := by
  -- The servers in front of it can be looked up, and the first one that cannot be stops the rest.
  have ofServers {servers : List Name} (listed : server ∈ servers) :
      ∃ misuse, view.allAddresses servers = .error misuse := by
    induction servers with
    | nil => cases listed
    | cons first servers ih =>
      rw [allAddresses]
      cases kind : first.absolute with
      | false => exact ⟨.relativeInCache first, by simp [serverAddresses, answer, kind]; rfl⟩
      | true =>
        obtain rfl | later := List.mem_cons.mp listed
        · rw [kind] at relative
          cases relative
        · obtain ⟨misuse, refused⟩ := ih later
          rw [serverAddresses_eq kind, refused]
          exact ⟨misuse, rfl⟩
  unfold servers at listed
  unfold zoneAddresses answer
  rw [if_pos absolute]
  cases given : view zone .ns with
  | none =>
    rw [given] at listed
    cases listed
  | some set =>
    rw [given, Option.toList_some, List.flatMap_singleton] at listed
    exact ofServers listed

theorem deepest_refused {zones : List Name} (port : UInt16) {zone : Name} (member : zone ∈ zones)
    {misuse : Misuse} (refused : view.zoneAddresses zone = .error misuse)
    (found : Option (Name × List Endpoint)) :
    ∃ misuse, view.deepest port found zones = .error misuse := by
  induction zones generalizing found with
  | nil => cases member
  | cons first zones ih =>
    rw [deepest]
    cases gives : view.zoneAddresses first with
    | error misuse => exact ⟨misuse, rfl⟩
    | ok addresses =>
      obtain rfl | later := List.mem_cons.mp member
      · rw [gives] at refused
        cases refused
      · cases none : addresses.isEmpty with
        | true =>
          obtain ⟨misuse, rest⟩ := ih later found
          exact ⟨misuse, (if_pos none).trans rest⟩
        | false =>
          obtain ⟨misuse, rest⟩ :=
            ih later (some (first, addresses.map (Endpoint.ofAddress · port)))
          exact ⟨misuse, (if_neg (none ▸ Bool.false_ne_true)).trans rest⟩

/-- Each `zone` with `servers` takes the place of the one before. -/
theorem deepest_eq {zones : List Name} (port : UInt16)
    (known : ∀ zone ∈ zones,
      view.zoneAddresses zone = .ok ((view.servers zone).flatMap view.addresses))
    (found : Option (Name × List Endpoint)) :
    view.deepest port found zones = .ok (((zones.reverse.find? fun zone =>
      !(view.endpoints zone port).isEmpty).map fun zone =>
        (zone, view.endpoints zone port)).or found) := by
  induction zones generalizing found with
  | nil => rfl
  | cons zone zones ih =>
    rw [List.forall_mem_cons] at known
    have same : (view.endpoints zone port).isEmpty =
        ((view.servers zone).flatMap view.addresses).isEmpty := List.isEmpty_map
    rw [deepest, known.1, List.reverse_cons, List.find?_append, Option.map_or, Option.or_assoc,
      List.find?_singleton, same]
    show (if _ then _ else _) = _
    rw [ih known.2, ih known.2]
    cases ((view.servers zone).flatMap view.addresses).isEmpty <;> rfl

theorem usable_iff {zone : Name} (port : UInt16) :
    view.Serves zone ↔ zone.isRoot = false ∧ ¬ (view.endpoints zone port).isEmpty = true := by
  rw [serves_iff port, List.isEmpty_iff]

/-- The first `zone` with servers is the closest one, since `suffixes` become shorter and
shorter. -/
theorem isClosest_of_find? {name zone : Name} {port : UInt16}
    (found : (name.suffixes.filter (!·.isRoot)).find? (fun zone =>
      !(view.endpoints zone port).isEmpty) = some zone) : view.IsClosest name zone := by
  obtain ⟨works, before, after, split, idle⟩ := List.find?_eq_some_iff_append.mp found
  have ordered := name.pairwise_suffixes.filter (!·.isRoot)
  rw [split] at ordered
  obtain ⟨around, proper⟩ := List.mem_filter.mp (List.mem_of_find?_eq_some found)
  refine ⟨around, (usable_iff port).mpr ⟨by simpa using proper, by simpa using works⟩, ?_⟩
  intro other among serves
  obtain ⟨below, works⟩ := (usable_iff port).mp serves
  have listed : other ∈ before ++ zone :: after := by
    rw [← split]
    exact List.mem_filter.mpr ⟨among, by simpa using below⟩
  obtain earlier | here := List.mem_append.mp listed
  · exact absurd (idle other earlier) (by simpa using works)
  · obtain rfl | later := List.mem_cons.mp here
    · exact Nat.le_refl _
    · have shorter := (List.pairwise_cons.mp (List.pairwise_append.mp ordered).2.1).1
      exact Nat.le_of_lt (shorter other later)

theorem closest?_eq_none_iff {name : Name} {port : UInt16} :
    view.closest? name port = none ↔ ∀ zone ∈ name.suffixes, ¬ view.Serves zone := by
  rw [closest?, Option.map_eq_none_iff, List.find?_eq_none]
  constructor
  · intro idle zone around serves
    obtain ⟨proper, works⟩ := (usable_iff port).mp serves
    exact idle zone (List.mem_filter.mpr ⟨around, by simpa using proper⟩) (by simpa using works)
  · intro idle zone member works
    obtain ⟨around, proper⟩ := List.mem_filter.mp member
    exact idle zone around
      ((usable_iff port).mpr ⟨by simpa using proper, by simpa using works⟩)

theorem IsClosest.unique {name zone other : Name} (closest : view.IsClosest name zone)
    (rival : view.IsClosest name other) : zone = other :=
  Name.eq_of_mem_suffixes closest.around rival.around
    (Nat.le_antisymm (rival.longest zone closest.around closest.serves)
      (closest.longest other rival.around rival.serves))

theorem closest?_eq_some_iff {name zone : Name} {port : UInt16} {endpoints : List Endpoint} :
    view.closest? name port = some (zone, endpoints) ↔
      view.IsClosest name zone ∧ endpoints = view.endpoints zone port := by
  constructor
  · intro gives
    obtain ⟨first, found, same⟩ := Option.map_eq_some_iff.mp gives
    obtain ⟨rfl, rfl⟩ := Prod.mk.inj same
    exact ⟨isClosest_of_find? found, rfl⟩
  · rintro ⟨closest, rfl⟩
    cases found : view.closest? name port with
    | none => exact absurd closest.serves (closest?_eq_none_iff.mp found zone closest.around)
    | some first =>
      obtain ⟨other, isFirst, rfl⟩ := Option.map_eq_some_iff.mp found
      rw [(isClosest_of_find? isFirst).unique closest]

end View

namespace Moment

variable {settings : CacheSettings} {moment : Moment} {account : Account}

theorem Follows.servers (follows : moment.Follows settings account) (zone : Name) :
    (moment.delegations.view moment.now).servers zone = account.view.servers zone := by
  have same := follows.map_view RecordSet.additionalNames (fun _ _ => rfl) zone .ns
  have listed (set? : Option RecordSet) : set?.toList.flatMap RecordSet.additionalNames =
      (set?.map RecordSet.additionalNames).getD [] := by
    cases set? <;> simp
  rw [View.servers, listed, same, ← listed, View.servers]

theorem Follows.addresses (follows : moment.Follows settings account) (server : Name) :
    (moment.delegations.view moment.now).addresses server = account.view.addresses server := by
  refine List.flatMap_congr fun type _ => ?_
  have same := follows.map_view (fun set => RecordSet.addresses [set]) (fun _ _ => rfl) server type
  have listed (set? : Option RecordSet) : RecordSet.addresses set?.toList =
      (set?.map fun set => RecordSet.addresses [set]).getD [] := by
    cases set? <;> rfl
  rw [listed, same, ← listed]

/-- What is found are the `servers` of the first `zone` that has any among the `suffixes` of the
`name`. -/
theorem Follows.serversFor_eq (follows : moment.Follows settings account) {name : Name}
    (absolute : name.absolute = true)
    (known : ∀ zone ∈ name.suffixes, zone.isRoot = false →
      ∀ server ∈ account.view.servers zone, server.absolute = true) (port : UInt16) :
    (serversFor name port moment.now moment.delegations).1 =
      .ok (account.view.closest? name port) := by
  have same : (moment.delegations.view moment.now).closest? name port =
      account.view.closest? name port := by
    simp only [View.closest?, View.endpoints, follows.servers, funext follows.addresses]
  have gives : ∀ zone ∈ (name.suffixes.filter (!·.isRoot)).reverse,
      (moment.delegations.view moment.now).zoneAddresses zone =
        .ok (((moment.delegations.view moment.now).servers zone).flatMap
          (moment.delegations.view moment.now).addresses) := by
    intro zone member
    obtain ⟨around, proper⟩ := List.mem_filter.mp (List.mem_reverse.mp member)
    have isAbsolute : zone.absolute = true := (Name.mem_suffixes.mp around).1.trans absolute
    refine View.zoneAddresses_eq isAbsolute fun server listed => ?_
    rw [follows.servers] at listed
    exact known zone around (by simpa using proper) server listed
  rw [Delegations.serversFor_eq follows.settled, View.serversFor, View.deepest_eq port gives,
    List.reverse_reverse, Option.or_none, ← same, View.closest?]

/-- Nothing is found if a `server` of some `zone` around the `name` has no absolute name. -/
theorem Follows.serversFor_refused (follows : moment.Follows settings account) {name zone : Name}
    (absolute : name.absolute = true) (around : zone ∈ name.suffixes) (proper : zone.isRoot = false)
    {server : Name} (listed : server ∈ account.view.servers zone)
    (relative : server.absolute = false) (port : UInt16) :
    ∃ misuse, (serversFor name port moment.now moment.delegations).1 = .error misuse := by
  have isAbsolute : zone.absolute = true := (Name.mem_suffixes.mp around).1.trans absolute
  have member : zone ∈ (name.suffixes.filter (!·.isRoot)).reverse :=
    List.mem_reverse.mpr (List.mem_filter.mpr ⟨around, by simpa using proper⟩)
  rw [← follows.servers] at listed
  obtain ⟨misuse, refused⟩ := View.zoneAddresses_refused isAbsolute listed relative
  rw [Delegations.serversFor_eq follows.settled]
  exact View.deepest_refused port member refused none

/-- Along with the servers of a zone, an `address` was given for this one of them, and its life has
not ended. -/
def Gave (settings : CacheSettings) (steps : List Step) (server : Name) (address : Address) :
    Prop :=
  ∃ before servers glue after, steps = before ++ .add servers glue :: after ∧ servers.type = .ns ∧
    ∃ set ∈ glue, set.type.IsAddress ∧ servers.additionalNames.contains set.owner = true ∧
      (set.owner == server) = true ∧ address ∈ RecordSet.addresses [set] ∧
      ((start settings).run steps).now <
        ((start settings).run before).now.saturatingAdd (lifetime set.ttl settings.maxLife)

theorem saturatingAdd_of_add? {now life sum : Duration} (ends : now.add? life = some sum) :
    now.saturatingAdd life = sum := by
  unfold Duration.add? Duration.ofNanos? at ends
  unfold Duration.saturatingAdd Duration.ofNanos
  split at ends
  · rename_i bounded
    rw [dif_pos bounded]
    exact Option.some.inj ends
  · cases ends

/-- The `addresses` that stand for a `server` were given for it. -/
theorem gave_of_mem_addresses {steps : List Step} {server : Name} {address : Address}
    (member : address ∈ (Account.start.run settings steps).view.addresses server) :
    Gave settings steps server address := by
  obtain ⟨type, family, among⟩ := List.mem_flatMap.mp member
  -- Only data with addresses is looked for, and NS records have none.
  have isAddress : type.IsAddress := by
    rcases List.mem_cons.mp family with rfl | last
    · exact .inl rfl
    · exact .inr (List.mem_singleton.mp last)
  have clock (steps : List Step) : ((start settings).run steps).now =
      (Account.start.run settings steps).now := Account.now_run settings steps rfl
  cases stands : (Account.start.run settings steps).view server type with
  | none =>
    rw [stands] at among
    cases among
  | some set =>
    rw [stands] at among
    obtain ⟨told, found, rfl⟩ := Option.map_eq_some_iff.mp stands
    obtain ⟨found, alive⟩ := Option.filter_eq_some_iff.mp found
    have isFor := List.find?_some found
    rw [decide_eq_true_eq] at isFor alive
    -- What stands was told in some step, along with a zone that lists the server.
    obtain known | ⟨before, servers, glue, after, split, told', lives⟩ :=
      Account.exists_step (List.mem_of_find?_eq_some found)
    · cases known
    · obtain ⟨kind, same | ⟨given, -, listed⟩⟩ := mem_tellings told'
      · rw [← isFor.2, same, kind] at isAddress
        exact absurd rfl isAddress.ordinary.2.2
      · refine ⟨before, servers, glue, after, split, kind, told.set, given, ?_, listed,
          Name.beq_iff.mpr isFor.1, among, ?_⟩
        · rw [isFor.2]
          exact isAddress
        · rw [clock, clock, saturatingAdd_of_add? lives]
          exact alive

/-- Delegations serve the deepest usable zone and only what they were told. In every run of
delegations that start empty, with any `settings`, in which no name is dropped for want of room
(`Unevicting`), let the servers that stand for the zones around an absolute `name` be absolute as
well. Then `serversFor` has a result for the name. It is the zone that `IsClosest`: the longest
suffix of the name, other than the root, for which servers stand of which at least one has an
address. With it come the addresses of its servers in their order with the `port`, each of which
some step `Gave` for its server along with a zone and whose life has not ended. There is no result
if there is no such suffix. -/
theorem serversFor_closest (settings : CacheSettings) {steps : List Step}
    (unevicting : (start settings).Unevicting steps) {moment : Moment}
    (runs : (start settings).run steps = moment) {view : View}
    (stands : (Account.start.run settings steps).view = view) {name : Name}
    (absolute : name.absolute = true)
    (known : ∀ zone ∈ name.suffixes, zone.isRoot = false →
      ∀ server ∈ view.servers zone, server.absolute = true) (port : UInt16) :
    ∃ result, (serversFor name port moment.now moment.delegations).1 = .ok result ∧
      (∀ zone endpoints, result = some (zone, endpoints) ↔
        view.IsClosest name zone ∧ endpoints = view.endpoints zone port) ∧
      (result = none ↔ ∀ zone ∈ name.suffixes, ¬ view.Serves zone) ∧
      ∀ zone endpoints, result = some (zone, endpoints) → zone.isRoot = false ∧ endpoints ≠ [] ∧
        ∀ endpoint ∈ endpoints, endpoint.port = port ∧
          ∃ server ∈ view.servers zone, Gave settings steps server endpoint.address := by
  have follows := follows_run settings unevicting
  rw [← stands] at known
  refine ⟨view.closest? name port, ?_, fun _ _ => View.closest?_eq_some_iff,
    View.closest?_eq_none_iff, fun zone endpoints gives => ?_⟩
  · rw [← runs, ← stands]
    exact follows.serversFor_eq absolute known port
  · obtain ⟨closest, rfl⟩ := View.closest?_eq_some_iff.mp gives
    obtain ⟨proper, works⟩ := (View.serves_iff port).mp closest.serves
    refine ⟨proper, works, fun endpoint among => ?_⟩
    obtain ⟨address, member, rfl⟩ := List.mem_map.mp among
    obtain ⟨server, listed, located⟩ := List.mem_flatMap.mp member
    refine ⟨by cases address <;> rfl, server, listed, ?_⟩
    rw [Endpoint.address_ofAddress]
    rw [← stands] at located
    exact gave_of_mem_addresses located

theorem not_evicts_of_room {servers : RecordSet} {glue : List RecordSet}
    (room : moment.delegations.cache.size + (writes servers glue).length ≤
      moment.delegations.cache.settings.maxNames) : ¬ (Step.add servers glue).Evicts moment :=
  fun ⟨name, evicts⟩ => Cache.not_writesEvict_of_room room name evicts

/-- Two zones, `a.` and `b.a.`, each with a server. -/
def nested : List Step :=
  [.add (zone 97 110) [located 110 1],
    .add ⟨.spelled [98, 97], .internet, 60, .ns (.top 109), []⟩ [located 109 2]]

theorem serversFor_closest_nested :
    let moment := (start .default).run nested
    let view := (Account.start.run .default nested).view
    (serversFor (.spelled [99, 98, 97]) 53 moment.now moment.delegations).1 =
        .ok (some (.spelled [98, 97], [.v4 (.ofOctets 192 0 2 2) 53])) ∧
      view.IsClosest (.spelled [99, 98, 97]) (.spelled [98, 97]) ∧
      ∃ server ∈ view.servers (.spelled [98, 97]),
        Gave .default nested server (.v4 (.ofOctets 192 0 2 2)) := by
  intro moment view
  have unevicting : (start .default).Unevicting nested :=
    ⟨not_evicts_of_room (by decide), not_evicts_of_room (by decide), trivial⟩
  have absolute : (Name.spelled [99, 98, 97]).absolute = true := rfl
  obtain ⟨result, gives, closest, -, gave⟩ :=
    serversFor_closest .default unevicting rfl rfl absolute (by decide +kernel) 53
  have found : (serversFor (.spelled [99, 98, 97]) 53 moment.now moment.delegations).1 =
      .ok (some (.spelled [98, 97], [.v4 (.ofOctets 192 0 2 2) 53])) := by decide +kernel
  obtain rfl := Except.ok.inj (gives.symm.trans found)
  have given := (gave _ _ rfl).2.2 (.v4 (.ofOctets 192 0 2 2) 53) (List.mem_singleton.mpr rfl)
  exact ⟨found, ((closest _ _).mp rfl).1, given.2⟩

/-- A zone with a server whose name is not `absolute`, and with another one. -/
def partly : List Step :=
  [.add ⟨.top 97, .internet, 3600, .ns ⟨[Name.single 110], false, by decide⟩, [.ns (.top 109)]⟩
    [located 109 1]]

/-- A `server` whose name is not absolute keeps the other servers of its zone from being found. -/
theorem serversFor_refused_partly :
    let moment := (start .default).run partly
    let view := (Account.start.run .default partly).view
    (start .default).Unevicting partly ∧ (Name.top 97).absolute = true ∧
      view.IsClosest (.top 97) (.top 97) ∧
      view.endpoints (.top 97) 53 = [.v4 (.ofOctets 192 0 2 1) 53] ∧
      ∃ server, (serversFor (.top 97) 53 moment.now moment.delegations).1 =
        .error (.relativeInCache server) := by
  have unevicting : (start .default).Unevicting partly := ⟨not_evicts_of_room (by decide), trivial⟩
  refine ⟨unevicting, rfl, ?_, by decide +kernel,
    ⟨[Name.single 110], false, by decide⟩, by decide +kernel⟩
  have found : (Account.start.run .default partly).view.closest? (.top 97) 53 =
      some (.top 97, [.v4 (.ofOctets 192 0 2 1) 53]) := by decide +kernel
  exact (View.closest?_eq_some_iff.mp found).1

end Moment

end Delegations

end NameResolution
