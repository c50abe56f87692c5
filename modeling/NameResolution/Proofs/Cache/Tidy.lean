import NameResolution.Proofs.Cache.Entitlement
import NameResolution.Proofs.Cache.Views
import NameResolution.Proofs.Grouping

/-!
# Tidy caches

A cache keeps a record set under the owner and the type of the set, and all data of a set is of one
type. So what a lookup finds under a name is about this name.

* `Cache.Tidy`: a cache that is kept like this.
* `Cache.Scene.tidy_run`: whatever happens to a cache, it stays tidy.
* `Cache.Shows`: a record set that counts in a cache and can be trusted.
* `Cache.Tidy.gives_lookup`: all that a lookup for a single type can find in a tidy cache.
-/

namespace NameResolution

namespace Cache

/-! ## What is kept under a name -/

/-- The `entry` tells about the `name`, and all its data is of one type. -/
def TellsAbout (entry : Entry) (name : Name) : Prop :=
  ∀ set, entry.finding = .present set → set.owner.fold = name.fold ∧ set.Uniform

/-- A well formed `cache` in which every entry tells about the name it is kept under. -/
structure Tidy (cache : Cache) : Prop where
  wellFormed : cache.WellFormed
  tells : ∀ name type entry, cache.find? name type = some entry → TellsAbout entry name

theorem tidy_empty (settings : CacheSettings) : (empty settings).Tidy :=
  ⟨wellFormed_empty settings, fun _ _ _ found => nomatch found⟩

theorem tidy_clear (cache : Cache) : cache.clear.Tidy :=
  ⟨.clear cache, fun _ _ _ found => nomatch found⟩

/-- A `Cache` is `Tidy` if all that it holds was in a tidy one. -/
theorem Tidy.of_kept {before after : Cache} (tidy : before.Tidy) (shape : after.WellFormed)
    (kept : ∀ name type entry, after.find? name type = some entry →
      before.find? name type = some entry) : after.Tidy :=
  ⟨shape, fun name type entry found => tidy.tells name type entry (kept name type entry found)⟩

/-- The `write` brings no `set` with data of different types. -/
def Write.Uniform (write : Write) : Prop := ∀ set, write.finding = .present set → set.Uniform

theorem Write.owner_of_finding {write : Write} {set : RecordSet}
    (brings : write.finding = .present set) : set.owner = write.name := by
  cases write with
  | ofRecord record credibility =>
    obtain rfl := Finding.present.inj brings
    rfl
  | ofSet own credibility =>
    obtain rfl := Finding.present.inj brings
    rfl
  | ofAbsence name type ttl credibility => cases brings

theorem Write.Uniform.tidy_perform {write : Write} (uniform : write.Uniform) {cache : Cache}
    (tidy : cache.Tidy) (now : Duration) : (write.perform now cache).2.Tidy := by
  refine ⟨write.wellFormed_perform tidy.wellFormed now, fun name type entry found => ?_⟩
  obtain before | ⟨isFor, ⟨expireAt, -, rfl⟩ |
    ⟨record, old, set, expireAt, rfl, kept, said, rfl, -⟩⟩ := Write.find?_perform found
  · exact tidy.tells name type entry before
  · intro set said
    exact ⟨by rw [Write.owner_of_finding said]; exact isFor.1, uniform set said⟩
  · intro merged found
    obtain rfl := Finding.present.inj found
    obtain ⟨owner, own⟩ := tidy.tells name type old kept set said
    refine ⟨by rw [RecordSet.owner_merge, owner], own.merge (RecordSet.uniform_ofRecord record) ?_⟩
    rw [type_of_present said, type_of_find? kept]
    exact isFor.2

theorem Tidy.performAll {cache : Cache} (tidy : cache.Tidy) (now : Duration) {writes : List Write}
    (uniform : ∀ write ∈ writes, write.Uniform) : (performAll now writes cache).2.Tidy :=
  performAll_keeps Tidy (fun write member _ tidy => (uniform write member).tidy_perform tidy now)
    tidy

/-- An `Action` does not bring a `set` with data of different types. -/
def Action.Uniform : Action → Prop
  | .addSet set _ => set.Uniform
  | _ => True

/-- The sets that a `message` brings are those that its records are put together to. -/
theorem built_of_mem_writesOf {message : Message} {write : Write}
    (member : write ∈ writesOf message) {set : RecordSet} (brings : write.finding = .present set) :
    set.Built := by
  obtain ⟨own, credibility, rfl, -, place, among⟩ | ⟨question, -, type, ttl, credibility, rfl, -⟩ :=
    mem_writesOf_cases member
  · obtain rfl := Finding.present.inj brings
    cases place <;> exact RecordSet.built_of_mem_group _ among
  · cases brings

theorem uniform_of_mem_writesOf {message : Message} {write : Write}
    (member : write ∈ writesOf message) : write.Uniform :=
  fun _ brings => (built_of_mem_writesOf member brings).uniform

/-- Adding a `message` leaves a cache `Tidy`, even where it is refused. -/
theorem keeps_addMessage (message : Message) (now : Duration) :
    Op.Keeps Tidy (addMessage message now) fun _ => True := by
  rw [addMessage_eq]
  refine Op.Keeps.bind (P := fun _ => True) (.of_state fun cache tidy => ?_) fun _ _ => .pure trivial
  exact tidy.performAll now fun write (member : write ∈ writesOf message) =>
    uniform_of_mem_writesOf member

/-- An `action` brings sets that records are put together to, and no other ones but a `set` that it
is given. -/
theorem Action.forall_mem_writes {P : RecordSet → Prop} (own : ∀ set : RecordSet, set.Built → P set)
    {action : Action} (given : ∀ set credibility, action = .addSet set credibility → P set) :
    ∀ write ∈ action.writes, ∀ set, write.finding = .present set → P set := by
  cases action with
  | addRecord record credibility =>
    refine List.forall_mem_singleton.mpr fun set brings => ?_
    obtain rfl := Finding.present.inj brings
    exact own _ (.ofRecord record)
  | addSet whole credibility =>
    refine List.forall_mem_singleton.mpr fun set brings => ?_
    obtain rfl := Finding.present.inj brings
    exact given _ credibility rfl
  | addNegative name type soa credibility =>
    intro write member
    simp only [Action.writes] at member
    split at member
    · obtain rfl := List.mem_singleton.mp member
      intro set brings
      cases brings
    · cases member
  | addMessage message =>
    exact fun _ member set brings => own set (built_of_mem_writesOf member brings)
  | _ => exact List.forall_mem_nil _

theorem Action.Uniform.writes {action : Action} (uniform : action.Uniform) :
    ∀ write ∈ action.writes, write.Uniform := by
  refine Action.forall_mem_writes (fun _ built => built.uniform) fun set credibility same => ?_
  subst same
  exact uniform

/-- A `Tidy` `cache` stays tidy. -/
theorem Tidy.operate {cache : Cache} (tidy : cache.Tidy) {action : Action}
    (uniform : action.Uniform) (now : Duration) : (action.operate now cache).2.Tidy := by
  have effect := action.effect_operate now cache
  obtain wrote | known := effect.writes_or_known tidy.wellFormed
  · rw [wrote]
    exact tidy.performAll now uniform.writes
  · exact tidy.of_kept (effect.wellFormed tidy.wellFormed) known

/-- Whatever happens to a `cache` that starts empty, it is always `Tidy`. -/
theorem Scene.tidy_run (settings : CacheSettings) {actions : List Action}
    (uniform : ∀ action ∈ actions, action.Uniform) :
    ((start settings).run actions).cache.Tidy := by
  suffices kept : ∀ scene : Scene, scene.cache.Tidy → (scene.run actions).cache.Tidy from
    kept _ (tidy_empty settings)
  induction actions with
  | nil => exact fun _ tidy => tidy
  | cons action actions ih =>
    rw [List.forall_mem_cons] at uniform
    exact fun scene tidy => ih uniform.2 _ (tidy.operate uniform.1 scene.now)

/-! ## What a cache shows -/

/-- At a time the `cache` shows the record `set`: it has an entry for the owner and the type that
counts, has at least the credibility of an answer, and says so. -/
def Shows (cache : Cache) (now : Duration) (set : RecordSet) : Prop :=
  ∃ entry, cache.current? set.owner set.type now = some entry ∧
    Credibility.normal ≤ entry.credibility ∧ entry.setAt? now = some set

/-- What is kept under a `name` and `type` is a `set` of this type with this `owner`. -/
theorem Tidy.shows {cache : Cache} (tidy : cache.Tidy) {name : Name} {type : RecordType}
    {now : Duration} {entry : Entry} (counts : cache.current? name type now = some entry)
    (credible : Credibility.normal ≤ entry.credibility) {set : RecordSet}
    (here : entry.setAt? now = some set) :
    set.type = type ∧ (set.owner == name) = true ∧ set.Uniform ∧ cache.Shows now set := by
  obtain ⟨kept, -⟩ := current?_eq_some.mp counts
  cases said : entry.finding with
  | absent type => simp [Entry.setAt?, said] at here
  | present stored =>
    obtain rfl : { stored with ttl := entry.ttlAt now } = set := by
      simpa [Entry.setAt?, said] using here
    obtain ⟨owner, uniform⟩ := tidy.tells name type entry kept stored said
    have kind : stored.type = type := (type_of_present said).trans (type_of_find? kept)
    refine ⟨kind, Name.beq_iff.mpr owner, uniform, entry, ?_, credible, here⟩
    rw [← counts, ← kind]
    exact current?_congr cache owner stored.type now

theorem Tidy.uniform_of_shows {cache : Cache} (tidy : cache.Tidy) {now : Duration}
    {set : RecordSet} (shows : cache.Shows now set) : set.Uniform :=
  let ⟨_, counts, credible, here⟩ := shows
  (tidy.shows counts credible here).2.2.1

/-! ## Lookups -/

/-- What a lookup for a `type` at a `name` gives, by what the `cache` shows. -/
inductive Gives (cache : Cache) (now : Duration) (name : Name) (type : RecordType) : Lookup → Prop
  | answer {set : RecordSet} (kind : set.type = type) (here : (set.owner == name) = true)
    (shows : cache.Shows now set) : Gives cache now name type (.successful [set])
  | cname {set : RecordSet} (kind : set.type = .cname) (here : (set.owner == name) = true)
    (uniform : set.Uniform) (shows : cache.Shows now set) : Gives cache now name type (.cname set)
  | dname {set : RecordSet} (shows : cache.Shows now set) : Gives cache now name type (.dname set)
  | delegation (set : RecordSet) : Gives cache now name type (.delegation set)
  | nxDomain : Gives cache now name type .nxDomain
  | nxRrset : Gives cache now name type .nxRrset
  | unknown : Gives cache now name type .unknown

/-- The places that are read for a `type` at a `name`. -/
theorem mem_readings {type : RecordType} {name : Name} {reading : Reading}
    (member : reading ∈ readings type name.suffixes) :
    reading = ⟨name, type, .answer⟩ ∨ reading = ⟨name, .cname, .cname⟩ ∨
      (∃ zone, reading = ⟨zone, .dname, .dname⟩) ∨ (∃ zone, reading = ⟨zone, .ns, .servers⟩) ∨
      reading = ⟨name, .nothing, .missing⟩ := by
  obtain ⟨ancestors, suffixes⟩ := suffixes_eq_cons name
  rw [suffixes, readings, List.mem_append] at member
  obtain here | above := member
  · simp only [readingsAt, List.mem_cons, List.not_mem_nil, or_false] at here
    obtain rfl | rfl | rfl | rfl := here
    · exact .inl rfl
    · exact .inr (.inl rfl)
    · exact .inr (.inr (.inr (.inl ⟨name, rfl⟩)))
    · exact .inr (.inr (.inr (.inr rfl)))
  · obtain ⟨zone, -, here⟩ := List.mem_flatMap.mp above
    simp only [readingsAbove, List.mem_cons, List.not_mem_nil, or_false] at here
    obtain rfl | rfl := here
    · exact .inr (.inr (.inl ⟨zone, rfl⟩))
    · exact .inr (.inr (.inr (.inl ⟨zone, rfl⟩)))

/-- What a place shows that is read comes from an `entry` that counts and can be trusted. -/
theorem exists_of_view {reading : Reading} {cache : Cache} {request : Request} {found : Lookup}
    (shown : reading.view cache request = some found) :
    ∃ entry, cache.current? reading.name reading.type request.now = some entry ∧
      request.least ≤ entry.credibility ∧
      reading.aspect.shows (entry.findingAt request.now) = some found := by
  obtain ⟨entry, trusted, shows⟩ := Option.bind_eq_some_iff.mp shown
  obtain ⟨counts, credible⟩ := Option.filter_eq_some_iff.mp trusted
  exact ⟨entry, counts, by simpa using credible, shows⟩

/-- A `lookup` for a single `type` in a `Tidy` `cache` gives what the cache shows: a record set of
the type for the `name`, an alias of the name, or an alias of a subtree. -/
theorem Tidy.gives_lookup {cache : Cache} (tidy : cache.Tidy) {name : Name} {type : RecordType}
    (single : type ≠ .any) {now : Duration} {found : Lookup}
    (result : (lookup name type .normal now cache).1 = .ok found) :
    cache.Gives now name type found := by
  cases absolute : name.absolute with
  | false =>
    rw [lookup_relative absolute] at result
    cases result
  | true =>
    rw [lookup_eq absolute single .normal now tidy.wellFormed] at result
    obtain rfl := Except.ok.inj result
    cases first : (readings type name.suffixes).findSome?
        (·.view cache.evict ⟨type, .normal, now⟩) with
    | none => exact .unknown
    | some found =>
      -- What is found is shown at one of five places, by an entry that says what this place is read
      -- for.
      obtain ⟨reading, member, shown⟩ := List.exists_of_findSome?_eq_some first
      obtain ⟨entry, counts, credible, shows⟩ := exists_of_view shown
      obtain ⟨kept, alive⟩ := current?_eq_some.mp counts
      have counts := current?_eq_some.mpr ⟨find?_evict_eq_some cache kept, alive⟩
      rw [Option.getD_some]
      cases told : entry.findingAt now with
      | present set =>
        rw [told] at shows
        obtain ⟨kind, here, uniform, visible⟩ :=
          tidy.shows counts credible (by rw [setAt?_eq, told])
        obtain rfl | rfl | ⟨zone, rfl⟩ | ⟨zone, rfl⟩ | rfl := mem_readings member
        all_goals obtain rfl := Option.some.inj shows
        · exact .answer kind here visible
        · exact .cname kind here uniform visible
        · exact .dname visible
        · exact .delegation set
        · exact .nxDomain
      | absent absence =>
        rw [told] at shows
        obtain rfl | rfl | ⟨zone, rfl⟩ | ⟨zone, rfl⟩ | rfl := mem_readings member
        · obtain rfl := Option.some.inj shows
          exact .nxRrset
        · cases shows
        · cases shows
        · cases shows
        · obtain rfl := Option.some.inj shows
          exact .nxDomain

/-- What a lookup leaves behind: a tidy `Cache` that shows no more than before. -/
structure Reads (now : Duration) (before after : Cache) : Prop where
  tidy : after.Tidy
  shows : ∀ set, after.Shows now set → before.Shows now set

theorem Tidy.lookup {cache : Cache} (tidy : cache.Tidy) (name : Name) (type : RecordType)
    (least : Credibility) (now : Duration) :
    Reads now cache (lookup name type least now cache).2 := by
  have kept {owner : Name} {kind : RecordType} {entry : Entry}
      (found : (Cache.lookup name type least now cache).2.find? owner kind = some entry) :
      cache.find? owner kind = some entry := by
    obtain same | sheds := sheds_lookup name type least now cache
    · rwa [same] at found
    · exact find?_evict_eq_some cache ((sheds tidy.wellFormed.evict).find?_eq_some found)
  have shape : (Cache.lookup name type least now cache).2.WellFormed := by
    obtain same | sheds := sheds_lookup name type least now cache
    · rw [same]
      exact tidy.wellFormed
    · exact (sheds tidy.wellFormed.evict).wellFormed
  refine ⟨tidy.of_kept shape fun _ _ _ found => kept found, fun set shows => ?_⟩
  obtain ⟨entry, counts, rest⟩ := shows
  obtain ⟨found, alive⟩ := current?_eq_some.mp counts
  exact ⟨entry, current?_eq_some.mpr ⟨kept found, alive⟩, rest⟩

end Cache

end NameResolution
