import NameResolution.Proofs.Cache.Table
import NameResolution.Proofs.Names

/-!
# What decides a lookup

Each suffix of a name can decide a lookup by several rules. The first suffix at which one of them
applies does, the name itself being the first one, and there the first rule that applies.

* `Cache.Live`: the entries that a lookup goes by. `Cache.liveSets`: the records of a name in them.
* `Cache.Rule`, `Cache.Applies`: the rules, and when each of them applies to a suffix.
* `Cache.Decides`: the first rule at the first suffix.
* `Cache.lookup_decided`: what is found is what this decides, and reading changes nothing else.
* `Cache.Scene.lookup_decided_within`: so it is in every run of a cache.
-/

namespace NameResolution

namespace Cache

/-! ## Rules -/

/-- An `entry` that a `request` goes by. It has not expired, it can be trusted, and its `name` is
not one of those beyond the limit, which are dropped before anything is read. -/
structure Live (cache : Cache) (request : Request) (name : Name) (type : RecordType)
    (entry : Entry) : Prop where
  kept : cache.find? name type = some entry
  counts : ¬ entry.IsExpired request.now
  credible : request.least ≤ entry.credibility
  within : name.fold ∉ cache.excess

/-- A record `set` that a `request` goes by, with the time that is left to it. -/
def LiveSet (cache : Cache) (request : Request) (name : Name) (type : RecordType)
    (set : RecordSet) : Prop :=
  ∃ entry, cache.Live request name type entry ∧ entry.setAt? request.now = some set

/-- All record sets of a `name` that a `request` goes by, in the order they are kept in. -/
def liveSets (cache : Cache) (request : Request) (name : Name) : List RecordSet :=
  ((cache.evict.alive request.now name).filter (request.least ≤ ·.credibility)).filterMap
    (·.setAt? request.now)

/-- The rules by which a suffix of a name can decide a `lookup`. -/
inductive Rule
  | everything
  | answer
  | cname
  | dname
  | servers
  | missing
  deriving DecidableEq

/-- The rules in their order, `everything` first and `missing` last. -/
def Rule.all : List Rule := [everything, answer, cname, dname, servers, missing]

theorem Rule.mem_all (rule : Rule) : rule ∈ all := by
  cases rule <;> decide

/-- A `Rule` applies to a suffix of the `name`, and this is found by it. -/
inductive Applies (cache : Cache) (request : Request) (name : Name) :
    Name → Rule → Lookup → Prop
  | everything (any : request.type = .any) (known : cache.liveSets request name ≠ []) :
    Applies cache request name name .everything (.successful (cache.liveSets request name))
  | present (single : request.type ≠ .any) {set : RecordSet}
    (live : cache.LiveSet request name request.type set) :
    Applies cache request name name .answer (.successful [set])
  | absent (single : request.type ≠ .any) {entry : Entry}
    (live : cache.Live request name request.type entry) (negative : entry.isNegative = true) :
    Applies cache request name name .answer .nxRrset
  | cname (single : request.type ≠ .any) {set : RecordSet}
    (live : cache.LiveSet request name .cname set) :
    Applies cache request name name .cname (.cname set)
  | dname {ancestor : Name} (strict : ancestor ≠ name) {set : RecordSet}
    (live : cache.LiveSet request ancestor .dname set) :
    Applies cache request name ancestor .dname (.dname set)
  | servers {suffix : Name} {set : RecordSet} (live : cache.LiveSet request suffix .ns set) :
    Applies cache request name suffix .servers (.delegation set)
  | missing {entry : Entry} (live : cache.Live request name .nothing entry) :
    Applies cache request name name .missing .nxDomain

/-- Of some suffixes of the `name` the first one to which a `rule` applies decides, and there the
first rule that applies. -/
inductive Decides (cache : Cache) (request : Request) (name : Name) : List Name → Lookup → Prop
  | here {suffix : Name} {further : List Name} {earlier later : List Rule} {rule : Rule}
    {found : Lookup} (order : Rule.all = earlier ++ rule :: later)
    (first : ∀ other ∈ earlier, ∀ found, ¬ cache.Applies request name suffix other found)
    (applies : cache.Applies request name suffix rule found) :
    Decides cache request name (suffix :: further) found
  | further {suffix : Name} {further : List Name} {found : Lookup}
    (silent : ∀ rule found, ¬ cache.Applies request name suffix rule found)
    (decides : Decides cache request name further found) :
    Decides cache request name (suffix :: further) found
  | nowhere : Decides cache request name [] .unknown

/-! ## Rules as places that are read -/

section

variable {cache : Cache} {request : Request} {name : Name}

/-- What counts after the names beyond the limit have gone is what a `request` goes by. -/
theorem live_iff (shape : cache.WellFormed) {owner : Name} {type : RecordType} {entry : Entry} :
    cache.Live request owner type entry ↔ (cache.evict.current? owner type request.now).filter
      (request.least ≤ ·.credibility) = some entry := by
  rw [Option.filter_eq_some_iff, current?_eq_some, decide_eq_true_eq]
  constructor
  · rintro ⟨kept, counts, credible, within⟩
    exact ⟨⟨(find?_evict cache within type).trans kept, counts⟩, credible⟩
  · rintro ⟨⟨kept, counts⟩, credible⟩
    refine ⟨find?_evict_eq_some cache kept, counts, credible, fun beyond => ?_⟩
    rw [find?_eq, shape.entries?_evict_eq_none beyond] at kept
    cases kept

theorem mem_liveSets (shape : cache.WellFormed) {owner : Name} {set : RecordSet} :
    set ∈ cache.liveSets request owner ↔ ∃ type, cache.LiveSet request owner type set := by
  simp only [liveSets, List.mem_filterMap, List.mem_filter, mem_alive shape.evict,
    decide_eq_true_eq, LiveSet, live_iff shape, Option.filter_eq_some_iff]
  constructor
  · rintro ⟨entry, ⟨counts, credible⟩, here⟩
    exact ⟨entry.type, entry, ⟨counts, credible⟩, here⟩
  · rintro ⟨type, entry, ⟨counts, credible⟩, here⟩
    obtain rfl := type_of_find? (current?_eq_some.1 counts).1
    exact ⟨entry, ⟨counts, credible⟩, here⟩

/-- A place that only shows records shows those that a `request` goes by. -/
theorem view_eq_some_iff (shape : cache.WellFormed) {owner : Name} {type : RecordType}
    {aspect : Aspect} {shown : RecordSet → Lookup}
    (shows : ∀ finding, aspect.shows finding = match finding with
      | .present set => some (shown set)
      | .absent _ => none) {found : Lookup} :
    Reading.view ⟨owner, type, aspect⟩ cache.evict request = some found ↔
      ∃ set, cache.LiveSet request owner type set ∧ found = shown set := by
  rw [← trustedSet_map request owner cache.evict type aspect shown shows, trustedSet_apply]
  simp only [Option.map_eq_some_iff, Option.bind_eq_some_iff, ← live_iff shape]
  constructor
  · rintro ⟨set, live, rfl⟩
    exact ⟨set, live, rfl⟩
  · rintro ⟨set, live, rfl⟩
    exact ⟨set, live, rfl⟩

theorem view_answer_eq_some_iff (shape : cache.WellFormed) {owner : Name} {type : RecordType}
    {found : Lookup} : Reading.view ⟨owner, type, .answer⟩ cache.evict request = some found ↔
      (∃ set, cache.LiveSet request owner type set ∧ found = .successful [set]) ∨
        ∃ entry, cache.Live request owner type entry ∧ entry.isNegative = true ∧
          found = .nxRrset := by
  rw [Reading.view, Option.bind_eq_some_iff]
  simp only [← live_iff shape, LiveSet]
  constructor
  · rintro ⟨entry, live, shown⟩
    -- An entry of records shows these, and one that says there are none shows that.
    cases said : entry.finding with
    | present set =>
      refine .inl ⟨_, ⟨entry, live, by rw [Entry.setAt?, said]⟩, ?_⟩
      rw [Entry.findingAt, said] at shown
      exact (Option.some.inj shown).symm
    | absent type =>
      refine .inr ⟨entry, live, by rw [Entry.isNegative, said], ?_⟩
      rw [Entry.findingAt, said] at shown
      exact (Option.some.inj shown).symm
  · rintro (⟨set, ⟨entry, live, here⟩, rfl⟩ | ⟨entry, live, negative, rfl⟩)
    · refine ⟨entry, live, ?_⟩
      cases said : entry.finding with
      | present kept =>
        rw [Entry.setAt?, said] at here
        rw [Entry.findingAt, said, ← Option.some.inj here]
        rfl
      | absent type => simp [Entry.setAt?, said] at here
    · refine ⟨entry, live, ?_⟩
      cases said : entry.finding with
      | present kept => simp [Entry.isNegative, said] at negative
      | absent type =>
        rw [Entry.findingAt, said]
        rfl

theorem view_missing_eq_some_iff (shape : cache.WellFormed) {owner : Name} {found : Lookup} :
    Reading.view ⟨owner, .nothing, .missing⟩ cache.evict request = some found ↔
      ∃ entry, cache.Live request owner .nothing entry ∧ found = .nxDomain := by
  rw [← trusted_map_missing, trusted_apply]
  simp only [Option.map_eq_some_iff, ← live_iff shape]
  exact exists_congr fun entry => and_congr_right fun _ => eq_comm

end

/-- What a `Rule` finds at a `suffix` of the `name`, if it applies. -/
def Rule.finding? (cache : Cache) (request : Request) (name suffix : Name) : Rule → Option Lookup
  | everything =>
    if suffix = name ∧ request.type = .any ∧ cache.liveSets request name ≠ [] then
      some (.successful (cache.liveSets request name))
    else none
  | answer =>
    if suffix = name ∧ request.type ≠ .any then
      Reading.view ⟨name, request.type, .answer⟩ cache.evict request
    else none
  | cname =>
    if suffix = name ∧ request.type ≠ .any then
      Reading.view ⟨name, .cname, .cname⟩ cache.evict request
    else none
  | dname =>
    if suffix = name then none else Reading.view ⟨suffix, .dname, .dname⟩ cache.evict request
  | servers => Reading.view ⟨suffix, .ns, .servers⟩ cache.evict request
  | missing =>
    if suffix = name then Reading.view ⟨name, .nothing, .missing⟩ cache.evict request else none

section

variable {cache : Cache} (shape : cache.WellFormed) {request : Request} {name : Name}

include shape

theorem view_cname_eq_some_iff {owner : Name} {found : Lookup} :
    Reading.view ⟨owner, .cname, .cname⟩ cache.evict request = some found ↔
      ∃ set, cache.LiveSet request owner .cname set ∧ found = .cname set :=
  view_eq_some_iff shape fun finding => by cases finding <;> rfl

theorem view_dname_eq_some_iff {owner : Name} {found : Lookup} :
    Reading.view ⟨owner, .dname, .dname⟩ cache.evict request = some found ↔
      ∃ set, cache.LiveSet request owner .dname set ∧ found = .dname set :=
  view_eq_some_iff shape fun finding => by cases finding <;> rfl

theorem view_servers_eq_some_iff {owner : Name} {found : Lookup} :
    Reading.view ⟨owner, .ns, .servers⟩ cache.evict request = some found ↔
      ∃ set, cache.LiveSet request owner .ns set ∧ found = .delegation set :=
  view_eq_some_iff shape fun finding => by cases finding <;> rfl

theorem finding?_of_applies {suffix : Name} {rule : Rule} {found : Lookup}
    (applies : cache.Applies request name suffix rule found) :
    rule.finding? cache request name suffix = some found := by
  cases applies with
  | everything any known => exact if_pos ⟨rfl, any, known⟩
  | present single live =>
    exact (if_pos ⟨rfl, single⟩).trans ((view_answer_eq_some_iff shape).2 (.inl ⟨_, live, rfl⟩))
  | absent single live negative =>
    exact (if_pos ⟨rfl, single⟩).trans
      ((view_answer_eq_some_iff shape).2 (.inr ⟨_, live, negative, rfl⟩))
  | cname single live =>
    exact (if_pos ⟨rfl, single⟩).trans ((view_cname_eq_some_iff shape).2 ⟨_, live, rfl⟩)
  | dname strict live =>
    exact (if_neg strict).trans ((view_dname_eq_some_iff shape).2 ⟨_, live, rfl⟩)
  | servers live => exact (view_servers_eq_some_iff shape).2 ⟨_, live, rfl⟩
  | missing live => exact (if_pos rfl).trans ((view_missing_eq_some_iff shape).2 ⟨_, live, rfl⟩)

theorem applies_of_finding? {suffix : Name} {rule : Rule} {found : Lookup}
    (told : rule.finding? cache request name suffix = some found) :
    cache.Applies request name suffix rule found := by
  -- One case for each rule: the conditions are those of the rule, and what is told is what its
  -- place shows.
  cases rule with
  | everything =>
    obtain ⟨⟨rfl, any, known⟩, shown⟩ := Option.ite_none_right_eq_some.1 told
    rw [← Option.some.inj shown]
    exact .everything any known
  | answer =>
    obtain ⟨⟨rfl, single⟩, shown⟩ := Option.ite_none_right_eq_some.1 told
    obtain ⟨set, live, rfl⟩ | ⟨entry, live, negative, rfl⟩ :=
      (view_answer_eq_some_iff shape).1 shown
    · exact .present single live
    · exact .absent single live negative
  | cname =>
    obtain ⟨⟨rfl, single⟩, shown⟩ := Option.ite_none_right_eq_some.1 told
    obtain ⟨set, live, rfl⟩ := (view_cname_eq_some_iff shape).1 shown
    exact .cname single live
  | dname =>
    obtain ⟨strict, shown⟩ := Option.ite_none_left_eq_some.1 told
    obtain ⟨set, live, rfl⟩ := (view_dname_eq_some_iff shape).1 shown
    exact .dname strict live
  | servers =>
    obtain ⟨set, live, rfl⟩ := (view_servers_eq_some_iff shape).1 told
    exact .servers live
  | missing =>
    obtain ⟨rfl, shown⟩ := Option.ite_none_right_eq_some.1 told
    obtain ⟨entry, live, rfl⟩ := (view_missing_eq_some_iff shape).1 shown
    exact .missing live

/-- What a place told under a `rule` is computed by the rule. -/
theorem applies_iff {suffix : Name} {rule : Rule} {found : Lookup} :
    cache.Applies request name suffix rule found ↔
      rule.finding? cache request name suffix = some found :=
  ⟨finding?_of_applies shape, applies_of_finding? shape⟩

theorem not_applies_iff {suffix : Name} {rule : Rule} :
    (∀ found, ¬ cache.Applies request name suffix rule found) ↔
      rule.finding? cache request name suffix = none := by
  simp only [applies_iff shape, Option.eq_none_iff_forall_ne_some, ne_eq]

/-- The first `Rule` that applies at the first `suffix` decides, and without one the other
suffixes. -/
theorem decides_cons {suffix : Name} {further : List Name} {found : Lookup} :
    cache.Decides request name (suffix :: further) found ↔
      match Rule.all.findSome? (Rule.finding? cache request name suffix) with
      | some here => found = here
      | none => cache.Decides request name further found := by
  constructor
  · -- The first suffix decides exactly if some rule finds something there.
    intro decides
    cases decides with
    | here order first applies =>
      have shown : Rule.all.findSome? (Rule.finding? cache request name suffix) = some found :=
        List.findSome?_eq_some_iff.2 ⟨_, _, _, order, (applies_iff shape).1 applies,
          fun other member => (not_applies_iff shape).1 (first other member)⟩
      rw [shown]
    | further silent decides =>
      have nothing : Rule.all.findSome? (Rule.finding? cache request name suffix) = none :=
        List.findSome?_eq_none_iff.2 fun rule _ => (not_applies_iff shape).1 (silent rule)
      rwa [nothing]
  · cases shown : Rule.all.findSome? (Rule.finding? cache request name suffix) with
    | some here =>
      rintro rfl
      obtain ⟨earlier, rule, later, order, applies, first⟩ := List.findSome?_eq_some_iff.1 shown
      exact .here order (fun other member => (not_applies_iff shape).2 (first other member))
        ((applies_iff shape).2 applies)
    | none =>
      have silent := List.findSome?_eq_none_iff.1 shown
      exact .further fun rule => (not_applies_iff shape).2 (silent rule rule.mem_all)

end

/-! ## What lookups find -/

section

variable {cache : Cache} {request : Request} {name : Name}

/-- At an `ancestor` of the `name`, an alias of the subtree and the servers of a zone decide. -/
theorem findSome?_finding?_ancestor {ancestor : Name} (strict : ancestor ≠ name) :
    Rule.all.findSome? (Rule.finding? cache request name ancestor) =
      (readingsAbove ancestor).findSome? (·.view cache.evict request) := by
  simp only [Rule.all, List.findSome?_cons, List.findSome?_nil, Rule.finding?, strict, false_and,
    if_false, readingsAbove]

/-- At the `name` itself, the data that is asked for or an alias of the name decides, or else its
servers or its absence. -/
theorem findSome?_finding?_self :
    Rule.all.findSome? (Rule.finding? cache request name name) =
      (lookupExact request name cache.evict).1.or
        ((readingsBeside name).findSome? (·.view cache.evict request)) := by
  by_cases any : request.type = .any
  · have collected : (lookupExact request name cache.evict).1 =
        if (cache.liveSets request name).isEmpty then none
        else some (.successful (cache.liveSets request name)) := by
      unfold lookupExact
      rw [if_pos any]
      rfl
    rw [collected]
    simp only [Rule.all, List.findSome?_cons, List.findSome?_nil, Rule.finding?, any, true_and,
      if_true, readingsBeside, ne_eq, not_true_eq_false, if_false]
    cases cache.liveSets request name <;> rfl
  · rw [lookupExact_fst request name _ any]
    simp only [Rule.all, List.findSome?_cons, List.findSome?_nil, Rule.finding?, any, true_and,
      false_and, if_true, readingsBeside, ne_eq, not_false_eq_true, if_false]
    cases Reading.view ⟨name, request.type, .answer⟩ cache.evict request with
    | some found => rfl
    | none => cases Reading.view ⟨name, .cname, .cname⟩ cache.evict request <;> rfl

/-- Ancestors of the `name` decide by what the first of their places shows. -/
theorem decides_ancestors (shape : cache.WellFormed) {ancestors : List Name}
    (strict : name ∉ ancestors) {found : Lookup} :
    cache.Decides request name ancestors found ↔ found =
      ((ancestors.flatMap readingsAbove).findSome? (·.view cache.evict request)).getD .unknown := by
  induction ancestors with
  | nil =>
    constructor
    · rintro ⟨⟩
      rfl
    · rintro rfl
      exact .nowhere
  | cons ancestor ancestors ih =>
    obtain ⟨here, above⟩ := not_or.1 (mt List.mem_cons.2 strict)
    rw [decides_cons shape, findSome?_finding?_ancestor (Ne.symm here), List.flatMap_cons,
      List.findSome?_append]
    cases (readingsAbove ancestor).findSome? (·.view cache.evict request) with
    | some shown => exact Iff.rfl
    | none => exact ih above

end

/-- What reading leaves of a `Cache`: nothing has gone but the names beyond the limit and entries
that have expired, and what is left is as it was. -/
structure LeftByReading (now : Duration) (before after : Cache) : Prop where
  settings : after.settings = before.settings
  entry : ∀ name type, after.find? name type = before.find? name type ∨
    after.find? name type = none ∧
      (name.fold ∈ before.excess ∨ ∃ entry, before.find? name type = some entry ∧
        entry.IsExpired now)

theorem Shed.leftByReading {now : Duration} {before after : Cache} (shape : before.WellFormed)
    (shed : Shed now before.evict after) : LeftByReading now before after where
  settings := shed.settings
  entry name type := by
    by_cases beyond : name.fold ∈ before.excess
    · have gone : before.evict.find? name type = none := by
        rw [find?_eq, shape.entries?_evict_eq_none beyond, Option.bind_none]
      obtain same | ⟨gone', -⟩ := shed.entry name type
      · exact .inr ⟨same.trans gone, .inl beyond⟩
      · exact .inr ⟨gone', .inl beyond⟩
    · have stays := find?_evict before beyond type
      obtain same | ⟨gone, expired⟩ := shed.entry name type
      · exact .inl (same.trans stays)
      · rw [Cache.current?, stays] at expired
        cases known : before.find? name type with
        | none => exact .inl gone
        | some entry =>
          rw [known] at expired
          exact .inr ⟨gone, .inr ⟨entry, rfl, by simpa [Option.filter] using expired⟩⟩

/-- What a `lookup` finds is what the first rule decides that applies at the first suffix, and it
leaves everything else as it was. -/
theorem lookup_decided {cache : Cache} (shape : cache.WellFormed) {name : Name}
    (absolute : name.absolute = true) (type : RecordType) (least : Credibility) (now : Duration) :
    ∃ found after, lookup name type least now cache = (.ok found, after) ∧
      (∀ other, cache.Decides ⟨type, least, now⟩ name name.suffixes other ↔ other = found) ∧
      LeftByReading now cache after := by
  obtain ⟨ancestors, suffixes⟩ := suffixes_eq_cons name
  have strict : name ∉ ancestors := by
    have distinct := name.nodup_suffixes
    rw [suffixes] at distinct
    exact (List.nodup_cons.1 distinct).1
  have found := lookup_or absolute type least now shape
  have shed := sheds_lookupSuffixes ⟨type, least, now⟩ name.suffixes cache.evict shape.evict
  rw [lookup_apply absolute] at found ⊢
  refine ⟨_, _, Prod.ext found rfl, fun other => ?_, shed.leftByReading shape⟩
  rw [suffixes, decides_cons shape, findSome?_finding?_self, readingsPast, List.findSome?_append,
    ← Option.or_assoc]
  cases (lookupExact ⟨type, least, now⟩ name cache.evict).1.or
    ((readingsBeside name).findSome? (·.view cache.evict ⟨type, least, now⟩)) with
  | some shown => exact Iff.rfl
  | none => exact decides_ancestors shape strict

/-- In every `run` of a cache that starts empty, a `lookup` finds what `Decides` it: the first rule
that applies at the first suffix of the name, by the entries that have not expired, that can be
trusted and whose names are within the limit. Nothing else changes, as `LeftByReading` says. -/
theorem Scene.lookup_decided_within (settings : CacheSettings) (actions : List Action) {name : Name}
    (absolute : name.absolute = true) (type : RecordType) (least : Credibility) :
    ∃ found after,
      lookup name type least ((start settings).run actions).now
          ((start settings).run actions).cache = (.ok found, after) ∧
        (∀ other, ((start settings).run actions).cache.Decides
          ⟨type, least, ((start settings).run actions).now⟩ name name.suffixes other ↔
            other = found) ∧
        LeftByReading ((start settings).run actions).now ((start settings).run actions).cache
          after :=
  lookup_decided (wellFormed_run (wellFormed_empty settings) actions) absolute type least _

/-- An alias and a server of one name, `a.`, and the address of another one. -/
def neighbours : List Action :=
  [.addRecord ⟨.top 98, .internet, 60, .a (.ofOctets 192 0 2 1)⟩ .authAnswer,
    .addRecord ⟨.top 97, .internet, 60, .ns (.top 99)⟩ .authAuthority,
    .addRecord ⟨.top 97, .internet, 60, .cname (.top 98)⟩ .nonAuthAnswer,
    .advance (.ofSeconds 10)]

/-- The alias goes before the server: what `Decides` the lookup is a `cname`. -/
theorem Scene.lookup_decided_within_alias : ∃ set : RecordSet, set.ttl = 50 ∧
    ((start .default).run neighbours).cache.Decides
      ⟨.a, .normal, ((start .default).run neighbours).now⟩ (.top 97) (Name.top 97).suffixes
        (.cname set) := by
  have absolute : (Name.top 97).absolute = true := rfl
  obtain ⟨found, after, result, decides, -⟩ :=
    lookup_decided_within .default neighbours absolute .a .normal
  obtain ⟨set, ttl, shown⟩ : ∃ set : RecordSet, set.ttl = 50 ∧
      (lookup (.top 97) .a .normal ((start .default).run neighbours).now
        ((start .default).run neighbours).cache).1 = .ok (.cname set) := ⟨_, rfl, rfl⟩
  rw [result] at shown
  exact ⟨set, ttl, (decides _).2 (Except.ok.inj shown).symm⟩

/-- An address that has not expired and can be trusted is not found if `setMaxNames` has lowered the
limit so far that its name is beyond it. -/
theorem Scene.lookup_passes_over_excess :
    let scene := (start .default).run (neighbours ++ [.setMaxNames 1])
    ∃ entry set, scene.cache.find? (.top 98) .a = some entry ∧ ¬ entry.IsExpired scene.now ∧
      Credibility.normal ≤ entry.credibility ∧ entry.setAt? scene.now = some set ∧
      (lookup (.top 98) .a .normal scene.now scene.cache).1 = .ok .unknown :=
  ⟨_, _, rfl, by decide, by decide, rfl, rfl⟩

end Cache

end NameResolution
