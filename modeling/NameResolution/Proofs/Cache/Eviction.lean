import NameResolution.Proofs.Cache.Filling

/-!
# Eviction

Names are dropped from a cache for want of room only. An operation evicts a name if the name goes
and would stay if more names were allowed.

* `Cache.Evicts`, `Cache.Action.Evicts`: what evicts a name.
* `Cache.not_writesEvict_of_room`: as long as there is room, nothing is evicted.
* `Cache.Write.find?_perform_of_current`, `Cache.find?_lookup_of_current`: an entry that counts
  stays where it is if its name is not evicted and nothing is added that could take its place.
* `Cache.current?_performAll_of_untouched`: writes leave what counts for other names and types.
-/

namespace NameResolution

namespace Cache

/-- The `cache` with another `limit` on names. -/
def withLimit (cache : Cache) (limit : Nat) : Cache :=
  cache.withSettings fun settings => { settings with maxNames := limit }

/-- The operation drops a `name` that it would keep if more names were allowed. -/
def Evicts (op : Op Cache Unit) (cache : Cache) (name : Name) : Prop :=
  (op cache).2.entries? name = none ∧
    ∃ limit, ((op (cache.withLimit limit)).2.entries? name).isSome

/-- One of the writes drops a `name` that it would keep if more names were allowed. -/
def WritesEvict (now : Duration) (name : Name) : List Write → Cache → Prop
  | [], _ => False
  | write :: writes, cache => Evicts (write.perform now) cache name ∨
      WritesEvict now name writes (write.perform now cache).2

/-- An `action` evicts a `name`, on the whole or on the way. -/
def Action.Evicts (action : Action) (now : Duration) (cache : Cache) (name : Name) : Prop :=
  Cache.Evicts (action.operate now) cache name ∨ WritesEvict now name action.writes cache

/-! ## The same cache with another limit -/

theorem touch_withLimit (cache : Cache) (limit : Nat) (name : Name) :
    (cache.withLimit limit).touch name = (cache.touch name).withLimit limit := by
  have same : (cache.withLimit limit).entries? name = cache.entries? name := rfl
  unfold touch
  rw [same]
  cases cache.entries? name <;> rfl

theorem setEntries_withLimit (cache : Cache) (limit : Nat) (name : Name) (entries : List Entry) :
    (cache.withLimit limit).setEntries name entries =
      (cache.setEntries name entries).withLimit limit := by
  unfold setEntries
  split <;> rfl

theorem remove_withLimit (cache : Cache) (limit : Nat) (name : Name) (type : RecordType) :
    (cache.withLimit limit).remove name type = (cache.remove name type).withLimit limit := by
  have same : (cache.withLimit limit).entries? name = cache.entries? name := rfl
  unfold remove
  rw [same]
  cases cache.entries? name with
  | none => rfl
  | some entries => exact setEntries_withLimit cache limit name _

theorem place_withLimit (cache : Cache) (limit : Nat) (name : Name) (entry : Entry) :
    (cache.withLimit limit).place name entry = (cache.place name entry).withLimit limit := by
  have same : (cache.withLimit limit).entries? name = cache.entries? name := rfl
  unfold place
  rw [same]
  cases cache.entries? name with
  | none => rfl
  | some entries =>
    simp only
    rw [touch_withLimit, setEntries_withLimit]

theorem replace_withLimit (cache : Cache) (limit : Nat) (name : Name) (entry : Entry) :
    (cache.withLimit limit).replace name entry = (cache.replace name entry).withLimit limit := by
  have same : (cache.withLimit limit).entries? name = cache.entries? name := rfl
  unfold replace
  rw [same]
  cases cache.entries? name with
  | none => rfl
  | some entries => exact setEntries_withLimit cache limit name _

theorem sweep_withLimit (cache : Cache) (limit : Nat) (name : Name) (type : RecordType)
    (now : Duration) :
    (cache.withLimit limit).sweep name type now = (cache.sweep name type now).withLimit limit := by
  obtain ⟨swept, counts⟩ | ⟨swept, entry, found, expired⟩ := cache.sweep_eq name type now
  · obtain ⟨swept', -⟩ | ⟨-, entry, found, expired⟩ :=
      (cache.withLimit limit).sweep_eq name type now
    · rw [swept, swept', touch_withLimit]
    · exact absurd expired (counts entry found)
  · obtain ⟨-, counts⟩ | ⟨swept', -⟩ := (cache.withLimit limit).sweep_eq name type now
    · exact absurd expired (counts entry found)
    · rw [swept, swept', touch_withLimit, remove_withLimit]

/-- A limit that no name is beyond drops nothing from the `cache`. -/
theorem evict_withLimit_length (cache : Cache) :
    (cache.withLimit cache.names.length).evict = cache.withLimit cache.names.length := by
  show Cache.mk (cache.names.take cache.names.length) _ = _
  rw [List.take_length]
  rfl

theorem verdict_withLimit (write : Write) (existing : Option Entry) (now : Duration)
    (settings : CacheSettings) (limit : Nat) :
    write.verdict existing now { settings with maxNames := limit } =
      write.verdict existing now settings := by
  have most : write.most { settings with maxNames := limit } = write.most settings := by
    cases write <;> rfl
  have own : write.ownVerdict existing now { settings with maxNames := limit } =
      write.ownVerdict existing now settings := by
    unfold Write.ownVerdict
    rw [most]
  unfold Write.verdict
  simp only [own]

/-! ## Room -/

/-- A `change` that finds `room` for one more `name` drops none that it would keep with another
`limit`. -/
theorem Change.entries?_apply_of_room {name : Name} {type : RecordType} {change : Change}
    {cache : Cache} (room : cache.size < cache.settings.maxNames) {limit : Nat} {other : Name}
    (stays : ((change.apply name type (cache.withLimit limit)).entries? other).isSome) :
    ((change.apply name type cache).entries? other).isSome := by
  cases change with
  | keep => exact stays
  | remove =>
    rw [Change.apply, remove_withLimit] at stays
    exact stays
  | replace entry =>
    rw [Change.apply, replace_withLimit] at stays
    exact stays
  | insert entry =>
    -- Only putting in adds a name, and there is room for it.
    have fits : (cache.place name entry).size ≤ (cache.place name entry).settings.maxNames := by
      have grown := size_place_le cache name entry
      rw [settings_place]
      omega
    obtain ⟨entries, kept⟩ := Option.isSome_iff_exists.mp stays
    rw [Change.apply, Cache.insert, place_withLimit] at kept
    have placed : (cache.place name entry).entries? other = some entries :=
      entries?_evict_eq_some ((cache.place name entry).withLimit limit) kept
    rw [Change.apply, Cache.insert, evict_of_room fits, placed]
    rfl

/-- A `write` that finds `room` for one more `name` evicts none. -/
theorem not_evicts_of_room {write : Write} {now : Duration} {cache : Cache}
    (room : cache.size < cache.settings.maxNames) (name : Name) :
    ¬ Evicts (write.perform now) cache name := by
  rintro ⟨gone, limit, stays⟩
  -- The limit on names does not enter into what comes of the write.
  have same : write.verdict ((cache.withLimit limit).current? write.name write.type now) now
      (cache.withLimit limit).settings = write.verdict (cache.current? write.name write.type now)
        now cache.settings := verdict_withLimit _ _ _ _ _
  rw [write.perform_apply] at gone stays
  cases accepted : write.refusal? with
  | some misuse =>
    rw [accepted] at gone stays
    have known : (cache.entries? name).isSome := stays
    rw [gone] at known
    cases known
  | none =>
    rw [accepted] at gone stays
    simp only [same, sweep_withLimit] at gone stays
    have room : (cache.sweep write.name write.type now).size <
        (cache.sweep write.name write.type now).settings.maxNames := by
      rw [settings_sweep]
      exact Nat.lt_of_le_of_lt (size_sweep_le cache _ _ now) room
    have kept := Change.entries?_apply_of_room room stays
    rw [gone] at kept
    cases kept

/-- Writes that find `room` for one more `name` each evict none. -/
theorem not_writesEvict_of_room {now : Duration} {writes : List Write} {cache : Cache}
    (room : cache.size + writes.length ≤ cache.settings.maxNames) (name : Name) :
    ¬ WritesEvict now name writes cache := by
  induction writes generalizing cache with
  | nil => exact id
  | cons write writes ih =>
    rw [List.length_cons] at room
    have grown := write.size_perform_le now cache
    refine not_or.mpr ⟨not_evicts_of_room (by omega) name, ih ?_⟩
    rw [write.settings_perform]
    omega

/-! ## What stays -/

theorem isSome_entries?_of_find? {cache : Cache} {name : Name} {type : RecordType} {entry : Entry}
    (found : cache.find? name type = some entry) : (cache.entries? name).isSome := by
  rw [find?_eq, Option.bind_eq_some_iff] at found
  obtain ⟨entries, kept, -⟩ := found
  simp [kept]

theorem isSome_entries?_of_mem_excess {cache : Cache} {name : Name}
    (beyond : name.fold ∈ cache.excess) : (cache.entries? name).isSome := by
  obtain ⟨item, dropped, same⟩ := List.mem_map.1 beyond
  rw [entries?_eq, Option.isSome_map, List.find?_isSome]
  exact ⟨item, List.mem_of_mem_drop dropped, by simpa using same⟩

theorem perform_of_inserts {write : Write} {now : Duration} {cache : Cache} {new : Entry}
    (accepted : write.refusal? = none)
    (inserts : (write.verdict (cache.current? write.name write.type now) now cache.settings).2 =
      .insert new) :
    (write.perform now cache).2 =
      ((cache.sweep write.name write.type now).place write.name new).evict := by
  rw [write.perform_apply, accepted]
  simp only [inserts]
  rfl

/-- Unless a `name` is evicted, it is within the limit when an `Entry` has been put in. -/
theorem not_mem_excess_of_inserts {write : Write} {now : Duration} {cache : Cache}
    (shape : cache.WellFormed) {new : Entry} (accepted : write.refusal? = none)
    (inserts : (write.verdict (cache.current? write.name write.type now) now cache.settings).2 =
      .insert new) {name : Name} (kept : ¬ Evicts (write.perform now) cache name) :
    name.fold ∉ ((cache.sweep write.name write.type now).place write.name new).excess := by
  have shape' := (shape.sweep write.name write.type now).place write.name new
  refine fun beyond => kept ⟨?_,
    ((cache.sweep write.name write.type now).place write.name new).names.length, ?_⟩
  · rw [perform_of_inserts accepted inserts]
    exact shape'.entries?_evict_eq_none beyond
  · have same (limit : Nat) : (write.verdict ((cache.withLimit limit).current? write.name
        write.type now) now (cache.withLimit limit).settings).2 = .insert new := by
      rw [← inserts]
      exact congrArg Prod.snd (verdict_withLimit _ _ _ _ _)
    rw [perform_of_inserts accepted (same _), sweep_withLimit, place_withLimit,
      evict_withLimit_length]
    have known := isSome_entries?_of_mem_excess beyond
    exact known

/-- An `entry` is still there after putting in another one, unless its `name` is evicted. -/
theorem find?_insert_of_find? {write : Write} {now : Duration} {cache : Cache}
    (shape : cache.WellFormed) {new : Entry} (accepted : write.refusal? = none)
    (inserts : (write.verdict (cache.current? write.name write.type now) now cache.settings).2 =
      .insert new)
    {name : Name} {type : RecordType} {entry : Entry}
    (found : ((cache.sweep write.name write.type now).place write.name new).find? name type =
      some entry)
    (kept : ¬ Evicts (write.perform now) cache name) :
    (write.perform now cache).2.find? name type = some entry := by
  rw [perform_of_inserts accepted inserts,
    find?_evict _ (not_mem_excess_of_inserts shape accepted inserts kept)]
  exact found

/-- An `entry` that counts is still there after a `write`, unless its `name` is evicted or the write
is for the same name and `type` and not less credible. -/
theorem Write.find?_perform_of_current {write : Write} {now : Duration} {cache : Cache}
    (shape : cache.WellFormed) {name : Name} {type : RecordType} {entry : Entry}
    (counts : cache.current? name type now = some entry)
    (below : write.IsFor name type → write.credibility < entry.credibility)
    (kept : ¬ Evicts (write.perform now) cache name) :
    (write.perform now cache).2.find? name type = some entry := by
  have found := (current?_eq_some.1 counts).1
  cases accepted : write.refusal? with
  | some misuse =>
    rw [write.perform_apply, accepted]
    exact found
  | none =>
    -- A write for the same name and type is blocked by the entry; all others leave it alone.
    by_cases isFor : write.IsFor name type
    · have existing : cache.current? write.name write.type now = some entry := by
        rw [current?_congr cache isFor.1, isFor.2, counts]
      rw [write.perform_apply, accepted]
      simp only
      rw [existing, write.verdict_of_blocked (below isFor), Change.apply, find?_sweep,
        if_pos ⟨isFor.1.symm, isFor.2.symm⟩, existing]
    · have swept : (cache.sweep write.name write.type now).find? name type = some entry := by
        rw [find?_sweep, if_neg fun same => isFor ⟨same.1.symm, same.2.symm⟩, found]
      obtain keep | remove | ⟨expireAt, -, insert⟩ |
        ⟨record, old, set, expireAt, rfl, existing, said, replace, -⟩ :=
        write.verdict_cases (cache.current? write.name write.type now) now cache.settings
      · rw [write.perform_apply, accepted]
        simp only
        rw [keep, Change.apply, swept]
      · rw [write.perform_apply, accepted]
        simp only
        rw [remove, Change.apply, find?_remove, if_neg fun same => isFor ⟨same.1.symm, same.2.symm⟩,
          swept]
      · refine find?_insert_of_find? shape accepted insert ?_ kept
        rw [find?_place, write.type_finding, if_neg fun same => isFor ⟨same.1.symm, same.2.symm⟩,
          swept]
      · rw [Write.perform_apply, accepted]
        simp only
        rw [replace, Change.apply, find?_replace, if_neg, swept]
        rintro ⟨owner, kind⟩
        refine isFor ⟨owner.symm, ?_⟩
        rw [kind, type_joined said (type_of_find? (current?_eq_some.1 existing).1)]

/-- A `lookup` that does not evict the `name` of an `entry` that counts finds this name within the
limit. -/
theorem not_mem_excess_of_lookup {op : Op Cache Unit} {now : Duration} {asked : Name}
    (absolute : asked.absolute = true) {kind : RecordType} {least : Credibility}
    (is : ∀ cache, (op cache).2 = (lookup asked kind least now cache).2) {cache : Cache}
    (shape : cache.WellFormed) {name : Name} {type : RecordType} {entry : Entry}
    (counts : cache.current? name type now = some entry) (kept : ¬ Evicts op cache name) :
    name.fold ∉ cache.excess := by
  refine fun beyond => kept ⟨?_, cache.names.length, ?_⟩
  · rw [is, lookup_apply absolute]
    have shed := sheds_lookupSuffixes ⟨kind, least, now⟩ asked.suffixes cache.evict shape.evict
    exact shed.unknown name (shape.entries?_evict_eq_none beyond)
  · have shape' : (cache.withLimit cache.names.length).WellFormed :=
      ⟨shape.folded, shape.distinct, shape.filled, shape.types⟩
    rw [is, lookup_apply absolute, evict_withLimit_length]
    have shed := sheds_lookupSuffixes ⟨kind, least, now⟩ asked.suffixes _ shape'
    have stays := (shed.current? name type).trans counts
    exact isSome_entries?_of_find? (current?_eq_some.1 stays).1

/-- An `entry` that counts is still there after a `lookup`, unless its `name` is evicted. -/
theorem find?_lookup_of_current {op : Op Cache Unit} {now : Duration} {asked : Name}
    {kind : RecordType} {least : Credibility}
    (is : ∀ cache, (op cache).2 = (lookup asked kind least now cache).2) {cache : Cache}
    (shape : cache.WellFormed) {name : Name} {type : RecordType} {entry : Entry}
    (counts : cache.current? name type now = some entry) (kept : ¬ Evicts op cache name) :
    (lookup asked kind least now cache).2.find? name type = some entry := by
  cases absolute : asked.absolute with
  | false =>
    rw [lookup_relative absolute]
    exact (current?_eq_some.1 counts).1
  | true =>
    have within := not_mem_excess_of_lookup absolute is shape counts kept
    rw [lookup_apply absolute]
    have shed := sheds_lookupSuffixes ⟨kind, least, now⟩ asked.suffixes cache.evict shape.evict
    have stays : cache.evict.current? name type now = some entry := by
      rw [current?, find?_evict cache within]
      exact counts
    exact (current?_eq_some.1 ((shed.current? name type).trans stays)).1

/-- An `entry` that counts is still there after several `writes`. -/
theorem find?_performAll_of_current {now : Duration} {writes : List Write} {name : Name}
    {type : RecordType} {entry : Entry} (alive : ¬ entry.IsExpired now)
    (below : ∀ write ∈ writes, write.IsFor name type → write.credibility < entry.credibility)
    {cache : Cache} (shape : cache.WellFormed) (found : cache.find? name type = some entry)
    (kept : ¬ WritesEvict now name writes cache) :
    (performAll now writes cache).2.find? name type = some entry := by
  induction writes generalizing cache with
  | nil => exact found
  | cons write writes ih =>
    rw [WritesEvict, not_or] at kept
    have first := write.find?_perform_of_current shape (current?_eq_some.2 ⟨found, alive⟩)
      (below write List.mem_cons_self) kept.1
    rw [performAll, Op.bind_apply]
    have shape := write.wellFormed_perform shape now
    rcases performed : write.perform now cache with ⟨misuse | _, middle⟩
    · rwa [performed] at first
    · rw [performed] at first shape kept
      exact ih (fun write member => below write (List.mem_cons_of_mem _ member)) shape first kept.2

/-- Writes for other names and types leave what counts, now and later, unless its `name` is
evicted. -/
theorem current?_performAll_of_untouched {now later : Duration} (since : now ≤ later)
    {writes : List Write} {name : Name} {type : RecordType}
    (untouched : ∀ write ∈ writes, ¬ write.IsFor name type) {cache : Cache}
    (shape : cache.WellFormed) (kept : ¬ WritesEvict now name writes cache) :
    (performAll now writes cache).2.current? name type later =
      cache.current? name type later := by
  -- None of the writes is for the name and type, so no entry is new there.
  have known (entry : Entry) (found : (performAll now writes cache).2.find? name type = some entry) :
      cache.find? name type = some entry := by
    refine performAll_keeps (fun after => ∀ entry, after.find? name type = some entry →
      cache.find? name type = some entry) (fun write member after known entry found => ?_)
      (fun _ => id) entry found
    obtain before | ⟨isFor, -⟩ := Write.find?_perform found
    · exact known entry before
    · exact absurd isFor (untouched write member)
  cases before : cache.current? name type later with
  | some entry =>
    obtain ⟨found, alive⟩ := current?_eq_some.mp before
    have stays := find?_performAll_of_current (fun expired => alive (Nat.le_trans expired since))
      (fun write member isFor => absurd isFor (untouched write member)) shape found kept
    exact current?_eq_some.mpr ⟨stays, alive⟩
  | none =>
    cases after : (performAll now writes cache).2.current? name type later with
    | none => rfl
    | some entry =>
      obtain ⟨found, alive⟩ := current?_eq_some.mp after
      have counts := current?_eq_some.mpr ⟨known entry found, alive⟩
      rw [before] at counts
      cases counts

end Cache

end NameResolution
