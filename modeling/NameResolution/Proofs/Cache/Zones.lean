import NameResolution.Cache.Delegations
import NameResolution.Proofs.Cache.Entitlement
import NameResolution.Proofs.Cache.Views
import NameResolution.Proofs.Names

/-!
# The servers of zones

What is found of the servers of a zone depends on the record sets that count for a few names alone:
the name servers of the zones around the name, and the addresses of these servers. Addresses are
known by the name of the server, whatever zone they came with.

* `Delegations.View`: the record sets that count. `Delegations.View.serversFor`: the servers of the
  closest zone around a name, by these. `Delegations.serversFor_eq`: this is what is found.
* `Delegations.Moment.run`: the delegations after some steps. `Delegations.settled_run`: they never
  outgrow their limit.
* `Delegations.Moment.add_keeps_apart`: a zone that is added changes what is found for names outside
  of it only through servers that it shares with their zones.
-/

namespace NameResolution

namespace Cache

/-! ## What lookups answer -/

/-- The record set of a type at a `name` that counts and can be trusted. -/
def given? (cache : Cache) (request : Request) (name : Name) : Option RecordSet :=
  ((cache.current? name request.type request.now).filter (request.least ≤ ·.credibility)).bind
    (·.setAt? request.now)

/-- Only the place that is read for the `answer` answers. -/
theorem Aspect.answers?_shows {aspect : Aspect} (other : aspect ≠ .answer) {finding : Finding}
    {found : Lookup} (shows : aspect.shows finding = some found) : found.answers? = none := by
  cases aspect with
  | answer => exact absurd rfl other
  | cname | dname | servers | missing =>
    cases finding <;> cases shows <;> rfl

theorem answers?_view (name : Name) (cache : Cache) (request : Request) :
    (Reading.view ⟨name, request.type, .answer⟩ cache request).bind Lookup.answers? =
      (cache.given? request name).map ([·]) := by
  unfold Reading.view given?
  cases (cache.current? name request.type request.now).filter (request.least ≤ ·.credibility) with
  | none => rfl
  | some entry =>
    simp only [Option.bind_some, setAt?_eq]
    cases entry.findingAt request.now <;> rfl

/-- What lookups read besides the place for the `answer`. -/
theorem exists_readings_other (type : RecordType) (name : Name) : ∃ later,
    readings type name.suffixes = ⟨name, type, .answer⟩ :: later ∧
      ∀ reading ∈ later, reading.aspect ≠ .answer := by
  obtain ⟨ancestors, suffixes⟩ := suffixes_eq_cons name
  refine ⟨_, congrArg (readings type) suffixes, fun reading member => ?_⟩
  obtain here | above := List.mem_append.mp member
  · simp only [List.mem_cons, List.not_mem_nil, or_false] at here
    obtain rfl | rfl | rfl := here <;> simp
  · obtain ⟨ancestor, -, here⟩ := List.mem_flatMap.mp above
    simp only [readingsAbove, List.mem_cons, List.not_mem_nil, or_false] at here
    obtain rfl | rfl := here <;> simp

/-- Where there is room, a `lookup` answers with the record set that counts, whatever has been
looked up before. -/
theorem Mirrors.answers {now : Duration} {cache other : Cache} (mirrors : Mirrors now cache other)
    {name : Name} (absolute : name.absolute = true) {type : RecordType} (single : type ≠ .any)
    (least : Credibility) : ∃ found next, Mirrors now cache next ∧
      Cache.lookup name type least now other = (.ok found, next) ∧
      found.answers? = (cache.given? ⟨type, least, now⟩ name).map ([·]) := by
  obtain ⟨next, still, result⟩ := mirrors.lookup absolute single least
  refine ⟨_, next, still, result, ?_⟩
  obtain ⟨later, first, others⟩ := exists_readings_other type name
  rw [first, List.findSome?_cons, ← answers?_view]
  cases shown : Reading.view ⟨name, type, .answer⟩ cache ⟨type, least, now⟩ with
  | some found => rfl
  | none =>
    cases rest : later.findSome? (·.view cache ⟨type, least, now⟩) with
    | none => rfl
    | some found =>
      obtain ⟨reading, member, shows⟩ := List.exists_of_findSome?_eq_some rest
      obtain ⟨entry, -, shows⟩ := Option.bind_eq_some_iff.mp shows
      exact Aspect.answers?_shows (others reading member) shows

end Cache

namespace Delegations

open Cache (Mirrors)

/-! ## What is found -/

/-- The record sets that count, as a function of `Name` and `RecordType`. -/
abbrev View := Name → RecordType → Option RecordSet

namespace View

variable (view : View)

/-- The record set of a `type` at an absolute `name`. -/
def answer (name : Name) (type : RecordType) : Except Misuse (Option RecordSet) :=
  if name.absolute then .ok (view name type) else .error (.relativeInCache name)

/-- The `addresses` of a `server`, by families. -/
def serverAddresses (server : Name) : List RecordType → Except Misuse (List Address)
  | [] => return []
  | type :: types => do
    let found ← view.answer server type
    let more ← serverAddresses server types
    return RecordSet.addresses found.toList ++ more

/-- The addresses of `servers`. -/
def allAddresses : List Name → Except Misuse (List Address)
  | [] => return []
  | server :: servers => do
    let here ← view.serverAddresses server [.a, .aaaa]
    let more ← allAddresses servers
    return here ++ more

/-- The addresses of the servers of exactly this `zone`. -/
def zoneAddresses (zone : Name) : Except Misuse (List Address) := do
  match ← view.answer zone .ns with
  | some set => view.allAddresses set.additionalNames
  | none => return []

/-- The last of some `zones` with servers that have `addresses`, with these. -/
def deepest (port : UInt16) (found : Option (Name × List Endpoint)) :
    List Name → Except Misuse (Option (Name × List Endpoint))
  | [] => return found
  | zone :: zones => do
    let addresses ← view.zoneAddresses zone
    if addresses.isEmpty then deepest port found zones
    else deepest port (some (zone, addresses.map (Endpoint.ofAddress · port))) zones

/-- The servers of the closest zone around `name` that have addresses. -/
def serversFor (name : Name) (port : UInt16) : Except Misuse (Option (Name × List Endpoint)) :=
  view.deepest port none (name.suffixes.filter (!·.isRoot)).reverse

end View

/-- How far servers (`hint`) and addresses (`glue`) must be trusted. -/
def least (type : RecordType) : Credibility := if type = .ns then .hint else .glue

/-- The record sets of `delegations` that count. -/
def view (delegations : Delegations) (now : Duration) : View := fun name type =>
  delegations.cache.given? ⟨type, least type, now⟩ name

/-- The operation tells what follows from the record sets that count, and changes nothing that
counts. -/
def Tells {α : Type} (now : Duration) (cache : Cache) (op : Op Cache α) (told : Except Misuse α) :
    Prop :=
  ∀ other, Mirrors now cache other → ∃ next, Mirrors now cache next ∧ op other = (told, next)

namespace Tells

variable {α β : Type} {now : Duration} {cache : Cache} {op : Op Cache α} {told : Except Misuse α}

theorem pure (value : α) : Tells now cache (Pure.pure value) (.ok value) := fun other mirrors =>
  ⟨other, mirrors, rfl⟩

theorem bind {next : α → Op Cache β} {rest : α → Except Misuse β} (first : Tells now cache op told)
    (later : ∀ value, Tells now cache (next value) (rest value)) :
    Tells now cache (op >>= next) (told >>= rest) := by
  intro other mirrors
  obtain ⟨middle, still, ran⟩ := first other mirrors
  rw [Op.bind_apply, ran]
  cases told with
  | ok value => exact later value middle still
  | error misuse => exact ⟨middle, still, rfl⟩

/-- Of a `lookup`, only the `answer` is of use. -/
theorem lookup {next : Lookup → Op Cache β} {rest : Option RecordSet → Except Misuse β}
    {name : Name} {type : RecordType} (single : type ≠ .any)
    (later : ∀ found set, found.answers? = set.map ([·]) → Tells now cache (next found) (rest set)) :
    Tells now cache (Cache.lookup name type (least type) now >>= next)
      ((view ⟨cache⟩ now).answer name type >>= rest) := by
  intro other mirrors
  unfold View.answer
  cases absolute : name.absolute with
  | false =>
    rw [Op.bind_apply, Cache.lookup_relative absolute]
    exact ⟨other, mirrors, rfl⟩
  | true =>
    obtain ⟨found, middle, still, ran, answers⟩ := mirrors.answers absolute single (least type)
    rw [Op.bind_apply, ran, if_pos rfl]
    exact later found _ answers middle still

end Tells

variable {now : Duration} {cache : Cache}

theorem tells_serverAddresses (server : Name) {types : List RecordType}
    (addresses : ∀ type ∈ types, type.IsAddress) :
    Tells now cache (serverAddresses server now types)
      ((view ⟨cache⟩ now).serverAddresses server types) := by
  induction types with
  | nil => exact .pure []
  | cons type types ih =>
    rw [List.forall_mem_cons] at addresses
    obtain ⟨-, single, other⟩ := addresses.1.ordinary
    have level : Credibility.glue = least type := (if_neg other).symm
    unfold serverAddresses View.serverAddresses
    rw [level]
    refine Tells.lookup single fun found set answers => (ih addresses.2).bind fun more => ?_
    rw [answers]
    cases set <;> exact .pure _

theorem tells_allAddresses (servers : List Name) :
    Tells now cache (allAddresses now servers) ((view ⟨cache⟩ now).allAddresses servers) := by
  induction servers with
  | nil => exact .pure []
  | cons server servers ih =>
    have types : ∀ type ∈ [RecordType.a, .aaaa], type.IsAddress := by decide
    exact (tells_serverAddresses server types).bind fun here => ih.bind fun more => .pure _

theorem tells_zoneAddresses (zone : Name) :
    Tells now cache (zoneAddresses zone now) ((view ⟨cache⟩ now).zoneAddresses zone) := by
  refine Tells.lookup (by decide) fun found set answers => ?_
  rw [answers]
  cases set with
  | none => exact .pure []
  | some set =>
    have names : [set].flatMap RecordSet.additionalNames = set.additionalNames :=
      List.flatMap_singleton _ _
    simp only [Option.map_some, names]
    exact tells_allAddresses set.additionalNames

theorem tells_deepest (port : UInt16) (found : Option (Name × List Endpoint)) (zones : List Name) :
    Tells now cache (deepest port now found zones)
      ((view ⟨cache⟩ now).deepest port found zones) := by
  induction zones generalizing found with
  | nil => exact .pure found
  | cons zone zones ih =>
    refine (tells_zoneAddresses zone).bind fun addresses => ?_
    split
    · exact ih found
    · exact ih _

/-- The `delegations` keep to their limit. -/
structure Settled (delegations : Delegations) : Prop where
  wellFormed : delegations.cache.WellFormed
  room : delegations.cache.size ≤ delegations.cache.settings.maxNames

/-- The servers that are found for a `name` follow from the record sets that count. -/
theorem serversFor_eq {delegations : Delegations} (settled : delegations.Settled) (name : Name)
    (port : UInt16) (now : Duration) :
    (serversFor name port now delegations).1 = (delegations.view now).serversFor name port := by
  obtain ⟨next, -, ran⟩ := tells_deepest port none (name.suffixes.filter (!·.isRoot)).reverse
    delegations.cache ⟨settled.wellFormed, settled.room, fun _ _ => rfl⟩
  unfold serversFor onCache
  rw [Op.onPart_apply, ran]
  rfl

/-! ## What is remembered -/

/-- What is written for a zone with its `servers` and their addresses. -/
def writes (servers : RecordSet) (glue : List RecordSet) : List Cache.Write :=
  if servers.owner.isRoot ∨ servers.type ≠ .ns then []
  else .ofSet servers .hint :: Cache.additionalWrites servers.additionalNames .glue glue

theorem addGlue_eq (servers : RecordSet) (now : Duration) (glue : List RecordSet) :
    addGlue servers now glue =
      Cache.performAll now (Cache.additionalWrites servers.additionalNames .glue glue) := by
  rw [← Cache.addAdditional_eq]
  induction glue with
  | nil => rfl
  | cons set sets ih =>
    unfold addGlue Cache.addAdditional
    rw [ih]

theorem add_snd (servers : RecordSet) (glue : List RecordSet) (now : Duration)
    (delegations : Delegations) : (add servers glue now delegations).2 =
      ⟨(Cache.performAll now (writes servers glue) delegations.cache).2⟩ := by
  unfold add onCache writes
  rw [Op.onPart_apply]
  by_cases root : servers.owner.isRoot = true
  · simp [root, Cache.performAll]
  by_cases kind : servers.type = .ns
  · simp only [root, kind, addGlue_eq, ne_eq, not_true_eq_false, or_self, if_false, if_true,
      Bool.false_eq_true, Cache.performAll, bind_pure_comp, ← map_bind, Op.map_apply]
    rfl
  · simp [root, kind, Cache.performAll]

/-- What is written are the `servers` of the zone and addresses of these servers. -/
theorem mem_writes {servers : RecordSet} {glue : List RecordSet} {write : Cache.Write}
    (member : write ∈ writes servers glue) : servers.type = .ns ∧
    (write = .ofSet servers .hint ∨ ∃ set ∈ glue, set.type.IsAddress ∧
      servers.additionalNames.contains set.owner = true ∧ write = .ofSet set .glue) := by
  unfold writes at member
  split at member
  · cases member
  · rename_i proper
    refine ⟨Classical.not_not.mp fun other => proper (.inr other), ?_⟩
    obtain rfl | rest := List.mem_cons.mp member
    · exact .inl rfl
    · obtain ⟨set, among, rfl⟩ := List.mem_map.mp rest
      obtain ⟨given, useful⟩ := List.mem_filter.mp among
      rw [decide_eq_true_eq] at useful
      exact .inr ⟨set, given, useful.1, useful.2, rfl⟩

/-! ## Runs -/

/-- What can be done with `Delegations`. -/
inductive Step
  | add (servers : RecordSet) (glue : List RecordSet)
  | serversFor (name : Name) (port : UInt16)
  | clear
  | advance (span : Duration)

/-- The `Delegations` at a time. -/
structure Moment where
  delegations : Delegations
  now : Duration

namespace Moment

/-- A `Moment` with delegations of no zones, at the beginning of time. -/
def start (settings : CacheSettings) : Moment := ⟨.empty settings, .zero⟩

/-- The `delegations` after a `Step`. What a refused step has changed stays changed. -/
def after (moment : Moment) : Step → Moment
  | .add servers glue =>
    { moment with delegations := (add servers glue moment.now moment.delegations).2 }
  | .serversFor name port =>
    { moment with delegations := (serversFor name port moment.now moment.delegations).2 }
  | .clear => { moment with delegations := moment.delegations.clear }
  | .advance span => { moment with now := moment.now.saturatingAdd span }

/-- The delegations after some `steps`. -/
def run (moment : Moment) (steps : List Step) : Moment := steps.foldl after moment

end Moment

theorem settled_empty (settings : CacheSettings) : (empty settings).Settled :=
  ⟨Cache.wellFormed_empty settings, Nat.zero_le _⟩

theorem Settled.add {delegations : Delegations} (settled : delegations.Settled)
    (servers : RecordSet) (glue : List RecordSet) (now : Duration) :
    (add servers glue now delegations).2.Settled := by
  rw [add_snd]
  have kept := Cache.performAll_keeps (fun cache => (Delegations.mk cache).Settled)
    (fun write (_ : write ∈ writes servers glue) cache kept =>
      ⟨write.wellFormed_perform kept.wellFormed now, write.room_perform now kept.room⟩)
    settled
  exact kept

theorem Settled.serversFor {delegations : Delegations} (settled : delegations.Settled)
    (name : Name) (port : UInt16) (now : Duration) :
    (serversFor name port now delegations).2.Settled := by
  obtain ⟨next, still, ran⟩ := tells_deepest port none (name.suffixes.filter (!·.isRoot)).reverse
    delegations.cache ⟨settled.wellFormed, settled.room, fun _ _ => rfl⟩
  unfold Delegations.serversFor onCache
  rw [Op.onPart_apply, ran]
  exact ⟨still.wellFormed, still.room⟩

theorem Settled.after {moment : Moment} (settled : moment.delegations.Settled) (step : Step) :
    (moment.after step).delegations.Settled := by
  cases step with
  | add servers glue => exact settled.add servers glue moment.now
  | serversFor name port => exact settled.serversFor name port moment.now
  | clear => exact ⟨.clear _, Nat.zero_le _⟩
  | advance span => exact settled

/-- The delegations of a `run` never outgrow their limit. -/
theorem settled_run (settings : CacheSettings) (steps : List Step) :
    ((Moment.start settings).run steps).delegations.Settled := by
  have step {moment : Moment} (settled : moment.delegations.Settled) :
      (moment.run steps).delegations.Settled := by
    induction steps generalizing moment with
    | nil => exact settled
    | cons step steps ih => exact ih (settled.after step)
  exact step (settled_empty settings)

/-! ## Zones apart -/

/-- The `server` is known for a zone around the `name`. -/
def Uses (delegations : Delegations) (now : Duration) (name server : Name) : Prop :=
  ∃ zone ∈ name.suffixes, zone.isRoot = false ∧
    ∃ set, delegations.view now zone .ns = some set ∧ server ∈ set.additionalNames

/-- Addresses are given along with the `servers` of a zone for this one of them. -/
def Brings (servers : RecordSet) (glue : List RecordSet) (server : Name) : Prop :=
  ∃ set ∈ glue, set.type.IsAddress ∧ servers.additionalNames.contains set.owner = true ∧
    (set.owner == server) = true

/-- What is found for a `name` follows from the servers of the `zones` around it and from their
`addresses`. -/
theorem View.serversFor_congr {view other : View} {name : Name} (port : UInt16)
    (zones : ∀ zone ∈ name.suffixes, zone.isRoot = false → other zone .ns = view zone .ns)
    (addresses : ∀ zone ∈ name.suffixes, zone.isRoot = false → ∀ set, view zone .ns = some set →
      ∀ server ∈ set.additionalNames, ∀ type : RecordType, type.IsAddress →
        other server type = view server type) :
    other.serversFor name port = view.serversFor name port := by
  -- The same addresses of the servers, then the same of each zone, then the same choice among the
  -- zones.
  have ofServers (names : List Name) (same : ∀ server ∈ names, ∀ type : RecordType,
      type.IsAddress → other server type = view server type) :
      other.allAddresses names = view.allAddresses names := by
    induction names with
    | nil => rfl
    | cons server names ih =>
      rw [List.forall_mem_cons] at same
      unfold allAddresses
      rw [ih same.2]
      simp only [serverAddresses, answer, same.1 .a (.inl rfl), same.1 .aaaa (.inr rfl)]
  have ofZone (zone : Name) (around : zone ∈ name.suffixes) (proper : zone.isRoot = false) :
      other.zoneAddresses zone = view.zoneAddresses zone := by
    unfold zoneAddresses answer
    rw [zones zone around proper]
    cases given : view zone .ns with
    | none => split <;> rfl
    | some set =>
      have same := ofServers set.additionalNames (addresses zone around proper set given)
      split
      · exact same
      · rfl
  have ofZones (found : Option (Name × List Endpoint)) (names : List Name)
      (proper : ∀ zone ∈ names, zone ∈ name.suffixes ∧ zone.isRoot = false) :
      other.deepest port found names = view.deepest port found names := by
    induction names generalizing found with
    | nil => rfl
    | cons zone names ih =>
      rw [List.forall_mem_cons] at proper
      unfold deepest
      rw [ofZone zone proper.1.1 proper.1.2]
      simp only [ih _ proper.2]
  refine ofZones none _ fun zone member => ?_
  obtain ⟨around, proper⟩ := List.mem_filter.mp (List.mem_reverse.mp member)
  exact ⟨around, by simpa using proper⟩

/-- The delegations of one zone do not redirect another one, unless they share a server. In every
`run` of delegations that start empty, with any `settings`, let the `servers` of a `zone` be added
along with addresses, such that no name is dropped for want of room. For every `name` that is not at
or below the zone, `serversFor` finds the same as without this, at once and at any later time,
provided that no server that is known for a zone around the name (`Uses`) is one for which addresses
are given. -/
theorem Moment.add_keeps_apart (settings : CacheSettings) (steps : List Step) {moment : Moment}
    (runs : (start settings).run steps = moment) {servers : RecordSet} {glue : List RecordSet}
    (kept : ∀ name, ¬ Cache.WritesEvict moment.now name (writes servers glue)
      moment.delegations.cache) {name : Name} (outside : ¬ name.IsSubdomainOf servers.owner)
    {later : Duration} (since : moment.now ≤ later)
    (unshared : ∀ server, moment.delegations.Uses later name server → ¬ Brings servers glue server)
    (port : UInt16) :
    (serversFor name port later (add servers glue moment.now moment.delegations).2).1 =
      (serversFor name port later moment.delegations).1 := by
  have settled : moment.delegations.Settled := runs ▸ settled_run settings steps
  -- Where nothing is written for a name and type, the view is what it was.
  have same {other : Name} {type : RecordType}
      (untouched : ∀ write ∈ writes servers glue, ¬ write.IsFor other type) :
      (add servers glue moment.now moment.delegations).2.view later other type =
        moment.delegations.view later other type := by
    have counts := Cache.current?_performAll_of_untouched since untouched settled.wellFormed
      (kept other)
    rw [add_snd]
    unfold view Cache.given?
    rw [counts]
  rw [serversFor_eq (settled.add servers glue moment.now), serversFor_eq settled]
  refine View.serversFor_congr port (fun zone around _ => same fun write member isFor => ?_)
    fun zone around proper set given server listed type address => same fun write member isFor => ?_
  · obtain ⟨-, rfl | ⟨set, -, address, -, rfl⟩⟩ := mem_writes member
    · exact outside ((Name.isSubdomainOf_of_mem_suffixes around).congr_zone isFor.1.symm)
    · exact address.ordinary.2.2 isFor.2
  · obtain ⟨kind, rfl | ⟨glued, among, -, mentioned, rfl⟩⟩ := mem_writes member
    · exact address.ordinary.2.2 (isFor.2.symm.trans kind)
    · exact unshared server ⟨zone, around, proper, set, given, listed⟩
        ⟨glued, among, by rw [show glued.type = type from isFor.2]; exact address, mentioned,
          Name.beq_iff.mpr isFor.1⟩

/-- A `zone` with one `server`. -/
def zone (owner server : UInt8) : RecordSet :=
  ⟨.top owner, .internet, 3600, .ns (.top server), []⟩

/-- The address of a `server`. -/
def located (server last : UInt8) : RecordSet :=
  ⟨.top server, .internet, 3600, .a (.ofOctets 192 0 2 last), []⟩

/-- One `zone` with its server. -/
def known : List Step := [.add (zone 97 110) [located 110 1]]

theorem Moment.add_keeps_apart_zone :
    let moment := (start .default).run known
    (serversFor (.top 97) 53 moment.now
        (add (zone 98 109) [located 109 66] moment.now moment.delegations).2).1 =
      (serversFor (.top 97) 53 moment.now moment.delegations).1 ∧
    (serversFor (.top 97) 53 moment.now moment.delegations).1 =
      .ok (some (.top 97, [.v4 (.ofOctets 192 0 2 1) 53])) := by
  intro moment
  have room : moment.delegations.cache.size + (writes (zone 98 109) [located 109 66]).length ≤
      moment.delegations.cache.settings.maxNames := by decide
  have unshared (server : Name) (uses : moment.delegations.Uses moment.now (.top 97) server) :
      ¬ Brings (zone 98 109) [located 109 66] server := by
    rintro ⟨glue, among, -, -, same⟩
    obtain rfl := List.mem_singleton.mp among
    obtain ⟨owner, around, proper, set, given, listed⟩ := uses
    obtain here | above := List.mem_cons.mp (show owner ∈ [Name.top 97, .root] from around)
    · subst here
      have first : moment.delegations.view moment.now (.top 97) .ns = some (zone 97 110) := by
        decide
      obtain rfl := Option.some.inj (given.symm.trans first)
      obtain rfl := List.mem_singleton.mp listed
      exact absurd same (by decide)
    · obtain rfl := List.mem_singleton.mp above
      cases proper
  have found : (serversFor (.top 97) 53 moment.now moment.delegations).1 =
      .ok (some (.top 97, [.v4 (.ofOctets 192 0 2 1) 53])) := by decide +kernel
  exact ⟨add_keeps_apart .default known rfl (Cache.not_writesEvict_of_room room) (by decide)
    (Nat.le_refl _) unshared 53, found⟩

/-- A `zone` that is added with another address of a server redirects all zones of this server. -/
theorem Moment.add_redirects_shared :
    let moment := (start .default).run known
    let after := (add (zone 98 110) [located 110 66] moment.now moment.delegations).2
    (zone 98 110).owner.isRoot = false ∧ (zone 98 110).type = .ns ∧
      ¬ (Name.top 97).IsSubdomainOf (zone 98 110).owner ∧
      (∀ name, ¬ Cache.WritesEvict moment.now name (writes (zone 98 110) [located 110 66])
        moment.delegations.cache) ∧
      (serversFor (.top 97) 53 moment.now moment.delegations).1 =
        .ok (some (.top 97, [.v4 (.ofOctets 192 0 2 1) 53])) ∧
      (serversFor (.top 97) 53 moment.now after).1 =
        .ok (some (.top 97, [.v4 (.ofOctets 192 0 2 66) 53])) := by
  intro moment after
  have room : moment.delegations.cache.size + (writes (zone 98 110) [located 110 66]).length ≤
      moment.delegations.cache.settings.maxNames := by decide
  exact ⟨rfl, rfl, by decide, Cache.not_writesEvict_of_room room, by decide +kernel,
    by decide +kernel⟩

end Delegations

end NameResolution
