import NameResolution.Proofs.Cache.LastWrites
import NameResolution.Proofs.Cache.Positions
import NameResolution.Proofs.Cache.Tidy

/-!
# What a cache keeps is in order

The store of a cache is a list of names with lists of entries, and entries are found, changed and
removed in several steps. Much of what the operations take for granted is not in the types: a name
goes with its last entry, a name has one entry of a type, and the record set of an entry is of this
name and this type. All of it is so in every state that a cache can reach, provided that the record
sets that it is given are put together from records.

* `RecordSet.KeptUnder`: a record set as it is kept under a name.
* `Cache.Neat`: a cache whose record sets are all like this. `Cache.Scene.neat_run`: whatever
  happens to a cache, it stays so.
* `Cache.Scene.representation_sound`: all that is always so in the store of a cache.
-/

namespace NameResolution

/-- The `set` is one to keep under a `name`: it has this owner, some data, all of one type that is
not for questions only, and no datum twice. -/
structure RecordSet.KeptUnder (set : RecordSet) (name : Name) : Prop where
  owner : (set.owner == name) = true
  filled : set.data ≠ []
  distinct : set.Distinct
  uniform : set.Uniform
  ordinary : ¬set.type.IsQueryOnly

namespace Cache

/-! ## The record sets -/

/-- A `Tidy` `cache` in which no set has a datum twice or is of a type that is for questions
only. -/
structure Neat (cache : Cache) : Prop extends Tidy cache where
  sets : ∀ name type entry, cache.find? name type = some entry →
    ∀ set, entry.finding = .present set → set.Distinct ∧ ¬set.type.IsQueryOnly

theorem Neat.keptUnder {cache : Cache} (neat : cache.Neat) {name : Name} {type : RecordType}
    {entry : Entry} (found : cache.find? name type = some entry) {set : RecordSet}
    (said : entry.finding = .present set) : set.KeptUnder name :=
  have ⟨owner, uniform⟩ := neat.tells name type entry found set said
  have ⟨distinct, ordinary⟩ := neat.sets name type entry found set said
  ⟨Name.beq_iff.mpr owner, List.cons_ne_nil _ _, distinct, uniform, ordinary⟩

theorem neat_empty (settings : CacheSettings) : (empty settings).Neat :=
  ⟨tidy_empty settings, fun _ _ _ found => nomatch found⟩

/-- The `write` brings no `set` but one that records are put together to. -/
def Write.Built (write : Write) : Prop := ∀ set, write.finding = .present set → set.Built

/-- A type that is for questions only (`IsQueryOnly`) is refused. -/
theorem Write.ordinary_of_accepted {write : Write} (accepted : write.refusal? = none)
    {set : RecordSet} (brings : write.finding = .present set) : ¬set.type.IsQueryOnly := by
  intro queryOnly
  cases write with
  | ofRecord record credibility =>
    obtain rfl := Finding.present.inj brings
    have queryOnly : record.type.IsQueryOnly := queryOnly
    rw [refusal?, if_pos queryOnly] at accepted
    cases accepted
  | ofSet own credibility =>
    obtain rfl := Finding.present.inj brings
    rw [refusal?, if_pos queryOnly] at accepted
    cases accepted
  | ofAbsence name type ttl credibility => cases brings

/-- A set that a record joins stays `Neat`: without a datum twice and of its type. -/
theorem Write.Built.neat_perform {write : Write} (built : write.Built) {cache : Cache}
    (neat : cache.Neat) (now : Duration) : (write.perform now cache).2.Neat := by
  have uniform : write.Uniform := fun set brings => (built set brings).uniform
  refine ⟨uniform.tidy_perform neat.toTidy now, fun name type entry found set said => ?_⟩
  cases accepted : write.refusal? with
  | some misuse =>
    have same : (write.perform now cache).2 = cache := by rw [write.perform_apply, accepted]
    rw [same] at found
    exact neat.sets name type entry found set said
  | none =>
    -- The entry was there before, or it is all that was written, or a record has joined it.
    obtain before | ⟨-, ⟨expireAt, -, rfl⟩ |
      ⟨record, old, own, expireAt, rfl, kept, held, rfl, -⟩⟩ := Write.find?_perform found
    · exact neat.sets name type entry before set said
    · exact ⟨(built set said).distinct, write.ordinary_of_accepted accepted said⟩
    · obtain rfl := Finding.present.inj said
      obtain ⟨distinct, ordinary⟩ := neat.sets name type old kept own held
      exact ⟨distinct.merge _, by rwa [RecordSet.type_merge]⟩

/-- An `Action` is given no `set` but one that records are put together to. -/
def Action.Built : Action → Prop
  | .addSet set _ => set.Built
  | _ => True

theorem Action.Built.writes {action : Action} (built : action.Built) :
    ∀ write ∈ action.writes, write.Built := by
  refine Action.forall_mem_writes (fun _ built => built) fun set credibility same => ?_
  subst same
  exact built

theorem Neat.operate {cache : Cache} (neat : cache.Neat) {action : Action} (built : action.Built)
    (now : Duration) : (action.operate now cache).2.Neat := by
  have effect := action.effect_operate now cache
  obtain wrote | known := effect.writes_or_known neat.wellFormed
  · rw [wrote]
    exact performAll_keeps Neat
      (fun write member _ neat => (built.writes write member).neat_perform neat now) neat
  · exact ⟨neat.of_kept (effect.wellFormed neat.wellFormed) known,
      fun name type entry found => neat.sets name type entry (known name type entry found)⟩

/-- Whatever happens to a `cache`, it stays `neat`. -/
theorem Scene.neat_run {scene : Scene} (neat : scene.cache.Neat) {actions : List Action}
    (built : ∀ action ∈ actions, action.Built) : (scene.run actions).cache.Neat := by
  induction actions generalizing scene with
  | nil => exact neat
  | cons action actions ih =>
    rw [List.forall_mem_cons] at built
    exact ih (neat.operate built.1 scene.now) built.2

/-! ## The store -/

/-- An `entry` in the store is the one that `find?` finds. -/
theorem WellFormed.find?_of_mem {cache : Cache} (shape : cache.WellFormed)
    {item : Name × List Entry} (member : item ∈ cache.names) {entry : Entry}
    (among : entry ∈ item.2) : cache.find? item.1 entry.type = some entry := by
  have kept : cache.entries? item.1 = some item.2 := by
    rw [entries?_eq, shape.folded item member,
      find?_eq_some_of_mem Prod.fst shape.distinct member]
    rfl
  rw [find?_eq, kept]
  exact find?_eq_some_of_mem Entry.type (shape.types item member) among

/-- The store of a cache is in order in every state that the cache can reach. Take any `run` of a
cache that starts empty, in which every record set that is given is `Built`, that is put together
from records. Then no name is kept twice, each has an entry, and no two entries of a name have the
same type. The set of an entry is one that can be `KeptUnder` the name. No entry ends later than the
time at which it was `LastWritten` plus the `largest` limit on lives of its kind that was in force
so far. The operations of the run can find entries and then remove, overwrite or return them by
their positions (`performAt?`): there is always an entry at the position, and the run comes to the
same cache. In each state on the way, an entry that is looked for by its position (`liveAt?`) is the
one that counts. -/
theorem Scene.representation_sound (settings : CacheSettings) {actions : List Action}
    (built : ∀ action ∈ actions, action.Built) :
    (((start settings).run actions).cache.names.map Prod.fst).Nodup ∧
    (∀ item ∈ ((start settings).run actions).cache.names,
      item.2 ≠ [] ∧ (item.2.map Entry.type).Nodup ∧ ∀ entry ∈ item.2,
        (∀ set, entry.finding = .present set → set.KeptUnder item.1) ∧
        ∃ writing, (start settings).LastWritten actions item.1 entry.type writing ∧
          entry.expireAt.nanos ≤
            writing.now.nanos + (start settings).largest entry.most actions) ∧
    ((start settings).accesses actions).foldlM Access.performAt? (.empty settings) =
      some ((start settings).run actions).cache ∧
    ∀ before after, (start settings).accesses actions = before ++ after →
      ∀ cache, Access.performAll (.empty settings) before = cache →
        ∀ name type now, cache.liveAt? name type now = some (live name type now cache) := by
  have empty := wellFormed_empty settings
  have neat : ((start settings).run actions).cache.Neat := neat_run (neat_empty settings) built
  have shape := neat.wellFormed
  refine ⟨shape.distinct, fun item member => ⟨shape.filled item member, shape.types item member,
    fun entry among => ?_⟩, ?_, ?_⟩
  · have found := shape.find?_of_mem member among
    refine ⟨fun set said => neat.keptUnder found said, ?_⟩
    obtain ⟨writing, written, ends⟩ | ⟨-, known⟩ := ends_of_find?_run empty found
    · exact ⟨writing, written,
        Nat.le_trans ends (Nat.add_le_add_left (written.le_largest entry.most) _)⟩
    · cases known
  · rw [Scene.cache_run]
    exact Access.foldlM_performAt? empty _
  · rintro before - - cache rfl
    exact (Access.wellFormed_performAll empty before).liveAt?

/-- A `Record` with an address of a host. -/
def hostRecord (last : UInt8) : Record := ⟨.top 104, .internet, 300, .a (.ofOctets 192 0 2 last)⟩

/-- Two addresses of the host come as a set by `addSet`. After ten seconds one of them comes again,
and then a third one, while lives are limited to a minute. -/
def gatherings : List Action :=
  [.addSet ((RecordSet.ofRecord (hostRecord 1)).push (hostRecord 2)) .authAnswer,
    .setMaxLife (.ofSeconds 60), .advance (.ofSeconds 10), .addRecord (hostRecord 2) .authAnswer,
    .addRecord (hostRecord 3) .authAnswer, .findRecords (.top 104) .a]

/-- The three addresses of the host as one `RecordSet`. -/
def gathered : RecordSet :=
  ⟨.top 104, .internet, 300, .a (.ofOctets 192 0 2 1),
    [.a (.ofOctets 192 0 2 2), .a (.ofOctets 192 0 2 3)]⟩

theorem Scene.representation_sound_gatherings :
    let entry : Entry := ⟨.present gathered, .authAnswer, .ofSeconds 70⟩
    (∀ action ∈ gatherings, action.Built) ∧
      ((start .default).run gatherings).cache.names = [(.top 104, [entry])] ∧
      gathered.KeptUnder (.top 104) ∧
      ∃ writing, (start .default).LastWritten gatherings (.top 104) .a writing ∧
        entry.expireAt.nanos ≤
          writing.now.nanos + (start .default).largest CacheSettings.maxLife gatherings := by
  intro entry
  have built : ∀ action ∈ gatherings, action.Built := by
    simp only [gatherings, List.forall_mem_cons, Action.Built, true_and]
    exact ⟨.push (.ofRecord _) _, List.forall_mem_nil _⟩
  have kept : ((start .default).run gatherings).cache.names = [(.top 104, [entry])] := rfl
  obtain ⟨-, items, -⟩ := representation_sound .default built
  rw [kept, List.forall_mem_singleton] at items
  obtain ⟨-, -, entries⟩ := items
  obtain ⟨sets, ends⟩ := List.forall_mem_singleton.mp entries
  exact ⟨built, kept, sets gathered rfl, ends⟩

end Cache

end NameResolution
