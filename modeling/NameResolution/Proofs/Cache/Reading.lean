import NameResolution.Cache.Lookup
import NameResolution.Proofs.Cache.Store
import NameResolution.Proofs.Operations

/-!
# Reading a cache

* `Cache.current?`: the entry for a name and type that still counts.
* `Cache.KeptByReading`: what reading one place keeps, a lookup keeps as well.
* `Cache.Sheds`: what reading does to a cache. Nothing goes but entries that no longer count.
* `Cache.serves_lookup`: every record set that a lookup finds comes from an entry that counts and
  can be trusted.
* `Cache.lookup_of_current`, `Cache.lookup_of_not_current`: whether a lookup finds the type asked
  for.
-/

namespace NameResolution

namespace Cache

/-- The `Entry` for a `name` and `type` that still counts. -/
def current? (cache : Cache) (name : Name) (type : RecordType) (now : Duration) : Option Entry :=
  (cache.find? name type).filter fun entry => ¬ entry.IsExpired now

theorem current?_eq_some {cache : Cache} {name : Name} {type : RecordType} {now : Duration}
    {entry : Entry} : cache.current? name type now = some entry ↔
      cache.find? name type = some entry ∧ ¬ entry.IsExpired now := by
  unfold current?
  rw [Option.filter_eq_some_iff]
  simp

theorem current?_congr (cache : Cache) {name other : Name} (same : name.fold = other.fold)
    (type : RecordType) (now : Duration) :
    cache.current? name type now = cache.current? other type now := by
  rw [current?, find?_congr cache same, current?]

/-! ## Using a name -/

/-- The `cache` after using a `name` and dropping its entry of a `type` if this has expired. -/
def sweep (cache : Cache) (name : Name) (type : RecordType) (now : Duration) : Cache :=
  (live name type now cache).2

theorem live_apply (name : Name) (type : RecordType) (now : Duration) (cache : Cache) :
    live name type now cache = (cache.current? name type now, cache.sweep name type now) := by
  refine Prod.ext ?_ rfl
  unfold live current?
  rw [stateM_bind_apply, stateM_get_apply]
  cases found : cache.find? name type with
  | none => rfl
  | some entry => by_cases expired : entry.IsExpired now <;> simp [expired, Option.filter]

/-- Using a `name` moves it to the front; its `entry` of the `type` goes if this has expired. -/
theorem sweep_eq (cache : Cache) (name : Name) (type : RecordType) (now : Duration) :
    cache.sweep name type now = cache.touch name ∧
        (∀ entry, cache.find? name type = some entry → ¬ entry.IsExpired now) ∨
      cache.sweep name type now = (cache.touch name).remove name type ∧
        ∃ entry, cache.find? name type = some entry ∧ entry.IsExpired now := by
  unfold sweep live
  rw [stateM_bind_apply, stateM_get_apply]
  cases found : cache.find? name type with
  | none => exact .inl ⟨rfl, by simp⟩
  | some entry =>
    by_cases expired : entry.IsExpired now
    · exact .inr ⟨by simp [expired], entry, rfl, expired⟩
    · exact .inl ⟨by simp [expired], by simpa using expired⟩

theorem find?_sweep (cache : Cache) (name : Name) (type : RecordType) (now : Duration)
    (other : Name) (asked : RecordType) :
    (cache.sweep name type now).find? other asked =
      if other.fold = name.fold ∧ asked = type then cache.current? name type now
      else cache.find? other asked := by
  obtain ⟨swept, counts⟩ | ⟨swept, entry, found, expired⟩ := cache.sweep_eq name type now
  · rw [swept, find?_touch]
    split
    · rename_i same
      rw [find?_congr cache same.1, same.2, current?]
      cases found : cache.find? name type with
      | none => rfl
      | some entry => simp [Option.filter, counts entry found]
    · rfl
  · rw [swept, find?_remove, find?_touch, current?, found]
    simp [Option.filter, expired]

/-! ## What reading does to a cache -/

/-- Nothing has gone from a `Cache` but entries that no longer count. -/
structure Shed (now : Duration) (before after : Cache) : Prop where
  wellFormed : after.WellFormed
  settings : after.settings = before.settings
  unknown : ∀ name, before.entries? name = none → after.entries? name = none
  entry : ∀ name type, after.find? name type = before.find? name type ∨
    after.find? name type = none ∧ before.current? name type now = none

/-- From a well formed `Cache` nothing goes but entries that no longer count. -/
def Sheds (now : Duration) (before after : Cache) : Prop :=
  before.WellFormed → Shed now before after

namespace Shed

variable {now : Duration} {before middle after : Cache}

theorem find?_eq_some (shed : Shed now before after) {name : Name} {type : RecordType}
    {entry : Entry} (found : after.find? name type = some entry) :
    before.find? name type = some entry := by
  obtain same | ⟨gone, -⟩ := shed.entry name type
  · rw [← same, found]
  · simp [gone] at found

theorem current? (shed : Shed now before after) (name : Name) (type : RecordType) :
    after.current? name type now = before.current? name type now := by
  obtain same | ⟨gone, expired⟩ := shed.entry name type
  · rw [Cache.current?, same, Cache.current?]
  · rw [expired, Cache.current?, gone]
    rfl

theorem trans (first : Shed now before middle) (second : Shed now middle after) :
    Shed now before after where
  wellFormed := second.wellFormed
  settings := second.settings.trans first.settings
  unknown := fun name unknown => second.unknown name (first.unknown name unknown)
  entry := fun name type => by
    obtain same | ⟨gone, expired⟩ := second.entry name type
    · rw [same]
      exact first.entry name type
    · rw [first.current?] at expired
      exact .inr ⟨gone, expired⟩

end Shed

instance (now : Duration) : Std.Refl (Sheds now) :=
  ⟨fun _ shape => ⟨shape, rfl, fun _ unknown => unknown, fun _ _ => .inl rfl⟩⟩

instance (now : Duration) : Trans (Sheds now) (Sheds now) (Sheds now) where
  trans first second := fun shape => (first shape).trans (second (first shape).wellFormed)

theorem settings_touch (cache : Cache) (name : Name) :
    (cache.touch name).settings = cache.settings := by
  unfold touch
  split <;> rfl

theorem settings_setEntries (cache : Cache) (name : Name) (entries : List Entry) :
    (cache.setEntries name entries).settings = cache.settings := by
  unfold setEntries
  split <;> rfl

theorem settings_remove (cache : Cache) (name : Name) (type : RecordType) :
    (cache.remove name type).settings = cache.settings := by
  unfold remove
  split
  · exact settings_setEntries _ _ _
  · rfl

theorem settings_replace (cache : Cache) (name : Name) (entry : Entry) :
    (cache.replace name entry).settings = cache.settings := by
  unfold replace
  split
  · exact settings_setEntries _ _ _
  · rfl

theorem settings_place (cache : Cache) (name : Name) (entry : Entry) :
    (cache.place name entry).settings = cache.settings := by
  unfold place
  split
  · rw [settings_setEntries, settings_touch]
  · rfl

theorem settings_sweep (cache : Cache) (name : Name) (type : RecordType) (now : Duration) :
    (cache.sweep name type now).settings = cache.settings := by
  obtain ⟨swept, -⟩ | ⟨swept, -⟩ := cache.sweep_eq name type now
  · rw [swept, settings_touch]
  · rw [swept, settings_remove, settings_touch]

theorem WellFormed.sweep {cache : Cache} (shape : cache.WellFormed) (name : Name)
    (type : RecordType) (now : Duration) : (cache.sweep name type now).WellFormed := by
  obtain ⟨swept, -⟩ | ⟨swept, -⟩ := cache.sweep_eq name type now
  · rw [swept]
    exact shape.touch name
  · rw [swept]
    exact (shape.touch name).remove name type

theorem entries?_setEntries_eq_none {cache : Cache} {name other : Name} {entries : List Entry}
    (unknown : cache.entries? other = none) :
    (cache.setEntries name entries).entries? other = none := by
  rw [entries?_setEntries]
  split
  · rename_i same
    rw [← entries?_congr cache same, unknown]
    simp
  · exact unknown

theorem entries?_remove_eq_none {cache : Cache} {name other : Name} {type : RecordType}
    (unknown : cache.entries? other = none) : (cache.remove name type).entries? other = none := by
  unfold remove
  split
  · exact entries?_setEntries_eq_none unknown
  · exact unknown

theorem sheds_sweep (name : Name) (type : RecordType) (now : Duration) (cache : Cache) :
    Sheds now cache (cache.sweep name type now) := by
  intro shape
  refine ⟨shape.sweep name type now, settings_sweep cache name type now, fun other unknown => ?_,
    fun other asked => ?_⟩
  · obtain ⟨swept, -⟩ | ⟨swept, -⟩ := cache.sweep_eq name type now
    · rw [swept, entries?_touch, unknown]
    · rw [swept]
      exact entries?_remove_eq_none (by rw [entries?_touch, unknown])
  · rw [find?_sweep]
    split
    · rename_i same
      rw [find?_congr cache same.1, current?_congr cache same.1, same.2]
      cases counts : cache.current? name type now with
      | none => exact .inr ⟨rfl, rfl⟩
      | some entry => exact .inl (current?_eq_some.1 counts).1.symm
    · exact .inl rfl

theorem sheds_live (name : Name) (type : RecordType) (now : Duration) :
    Moves (Sheds now) (live name type now) := fun cache => sheds_sweep name type now cache

/-- Whatever a lookup does, it does it by reading single entries and all entries of a name. So it
keeps a relation `rel` that these keep. -/
structure KeptByReading (request : Request) (rel : Cache → Cache → Prop) : Prop where
  live : ∀ name type, Moves rel (live name type request.now)
  collect : ∀ name, Moves rel (collect request name)

namespace KeptByReading

variable {request : Request} {rel : Cache → Cache → Prop} [Std.Refl rel] [Trans rel rel rel]

theorem trusted (kept : KeptByReading request rel) (name : Name) (type : RecordType) :
    Moves rel (trusted request name type) :=
  .bind (kept.live name type) fun _ => .pure _

theorem trustedSet (kept : KeptByReading request rel) (name : Name) (type : RecordType) :
    Moves rel (trustedSet request name type) :=
  .bind (kept.trusted name type) fun _ => .pure _

theorem lookupExact (kept : KeptByReading request rel) (name : Name) :
    Moves rel (lookupExact request name) := by
  unfold Cache.lookupExact
  split
  · exact .bind (kept.collect name) fun _ => .pure _
  · refine .bind (kept.trusted name request.type) fun entry => ?_
    cases entry with
    | some entry => exact .pure _
    | none => exact .bind (kept.trustedSet name .cname) fun _ => .pure _

theorem lookupAtName (kept : KeptByReading request rel) (name : Name) :
    Moves rel (lookupAtName request name) := by
  refine .bind (kept.lookupExact name) fun found => ?_
  cases found with
  | some found => exact .pure _
  | none =>
    refine .bind (kept.trustedSet name .ns) fun set => ?_
    cases set with
    | some set => exact .pure _
    | none => exact .bind (kept.trusted name .nothing) fun _ => .pure _

theorem lookupAtAncestor (kept : KeptByReading request rel) (ancestor : Name) :
    Moves rel (lookupAtAncestor request ancestor) := by
  refine .bind (kept.trustedSet ancestor .dname) fun set => ?_
  cases set with
  | some set => exact .pure _
  | none => exact .bind (kept.trustedSet ancestor .ns) fun _ => .pure _

theorem lookupAbove (kept : KeptByReading request rel) (ancestors : List Name) :
    Moves rel (lookupAbove request ancestors) := by
  induction ancestors with
  | nil => exact .pure _
  | cons ancestor ancestors ih =>
    refine .bind (kept.lookupAtAncestor ancestor) fun found => ?_
    cases found with
    | some found => exact .pure _
    | none => exact ih

theorem lookupSuffixes (kept : KeptByReading request rel) (names : List Name) :
    Moves rel (lookupSuffixes request names) := by
  cases names with
  | nil => exact .pure _
  | cons name ancestors =>
    refine .bind (kept.lookupAtName name) fun found => ?_
    cases found with
    | some found => exact .pure _
    | none => exact kept.lookupAbove ancestors

end KeptByReading

theorem sheds_collect (request : Request) (name : Name) :
    Moves (Sheds request.now) (collect request name) := by
  intro cache shape
  -- The entries that are left are those that still count, at most one of each type.
  let counting := ((cache.entries? name).getD []).filter (¬ ·.IsExpired request.now)
  have nodup : (((cache.entries? name).getD []).map Entry.type).Nodup := by
    cases kept : cache.entries? name with
    | none => simp
    | some entries => exact shape.nodup_types kept
  show Shed request.now cache ((cache.touch name).setEntries name counting)
  refine ⟨?_, ?_, fun other unknown => ?_, fun other asked => ?_⟩
  · exact (shape.touch name).setEntries name (nodup.sublist (List.filter_sublist.map _))
  · rw [settings_setEntries, settings_touch]
  · exact entries?_setEntries_eq_none (by rw [entries?_touch, unknown])
  · rw [find?_setEntries, entries?_touch, find?_touch]
    split
    · rename_i same
      cases kept : cache.entries? name with
      | none =>
        rw [find?_eq, entries?_congr cache same, kept]
        exact .inl rfl
      | some entries =>
        have found : counting.find? (·.type = asked) = cache.current? other asked request.now := by
          simp only [counting, kept, Option.getD_some] at nodup ⊢
          rw [find?_filter_of_nodup Entry.type nodup, current?, find?_eq,
            entries?_congr cache same, kept, Option.bind_some]
        rw [Option.bind_some, found]
        cases counts : cache.current? other asked request.now with
        | none => exact .inr ⟨rfl, rfl⟩
        | some entry => exact .inl (current?_eq_some.1 counts).1.symm
    · exact .inl rfl

theorem sheds_reading (request : Request) : KeptByReading request (Sheds request.now) :=
  ⟨fun name type => sheds_live name type request.now, sheds_collect request⟩

theorem sheds_trusted (request : Request) (name : Name) (type : RecordType) :
    Moves (Sheds request.now) (trusted request name type) :=
  (sheds_reading request).trusted name type

theorem sheds_trustedSet (request : Request) (name : Name) (type : RecordType) :
    Moves (Sheds request.now) (trustedSet request name type) :=
  (sheds_reading request).trustedSet name type

theorem sheds_lookupExact (request : Request) (name : Name) :
    Moves (Sheds request.now) (lookupExact request name) :=
  (sheds_reading request).lookupExact name

theorem sheds_lookupAtName (request : Request) (name : Name) :
    Moves (Sheds request.now) (lookupAtName request name) :=
  (sheds_reading request).lookupAtName name

theorem sheds_lookupAtAncestor (request : Request) (ancestor : Name) :
    Moves (Sheds request.now) (lookupAtAncestor request ancestor) :=
  (sheds_reading request).lookupAtAncestor ancestor

theorem sheds_lookupSuffixes (request : Request) (names : List Name) :
    Moves (Sheds request.now) (lookupSuffixes request names) :=
  (sheds_reading request).lookupSuffixes names

/-! ## What lookups find -/

/-- The record `set` comes from an entry that counts and can be trusted. -/
def Serves (cache : Cache) (request : Request) (set : RecordSet) : Prop :=
  ∃ name type entry, cache.current? name type request.now = some entry ∧
    request.least ≤ entry.credibility ∧ entry.setAt? request.now = some set

theorem Shed.serves {request : Request} {before after : Cache}
    (shed : Shed request.now before after) {set : RecordSet} (serves : after.Serves request set) :
    before.Serves request set := by
  obtain ⟨name, type, entry, counts, rest⟩ := serves
  rw [shed.current?] at counts
  exact ⟨name, type, entry, counts, rest⟩

/-- All record `sets` in the result of the operation come from entries that count and can be
trusted. -/
def Honest {α : Type} (request : Request) (sets : α → List RecordSet) (op : StateM Cache α) :
    Prop := ∀ cache : Cache, cache.WellFormed → ∀ set ∈ sets (op cache).1, cache.Serves request set

namespace Honest

variable {α β : Type} {request : Request} {sets : α → List RecordSet} {others : β → List RecordSet}

theorem map {op : StateM Cache α} {f : α → β} (honest : Honest request sets op)
    (subset : ∀ value, others (f value) ⊆ sets value) : Honest request others (f <$> op) :=
  fun cache shape set member => honest cache shape set (subset _ member)

/-- A `result` is taken as it is, or there is another reading. -/
theorem bind {op : StateM Cache α} {next : α → StateM Cache β} (honest : Honest request sets op)
    (sheds : Moves (Sheds request.now) op)
    (rest : ∀ value, (∃ result, next value = pure result ∧ others result ⊆ sets value) ∨
      Honest request others (next value)) :
    Honest request others (op >>= next) := by
  intro cache shape set member
  rw [stateM_bind_apply] at member
  obtain ⟨result, taken, subset⟩ | reads := rest (op cache).1
  · rw [taken] at member
    exact honest cache shape set (subset member)
  · have shed := sheds cache shape
    exact shed.serves (reads _ shed.wellFormed set member)

end Honest

theorem trusted_apply (request : Request) (name : Name) (type : RecordType) (cache : Cache) :
    trusted request name type cache =
      ((cache.current? name type request.now).filter (request.least ≤ ·.credibility),
        cache.sweep name type request.now) := by
  unfold trusted
  rw [stateM_bind_apply, live_apply]
  rfl

theorem honest_trusted (request : Request) (name : Name) (type : RecordType) :
    Honest request (fun entry => (entry.bind (·.setAt? request.now)).toList)
      (trusted request name type) := by
  intro cache shape set member
  rw [trusted_apply, Option.mem_toList, Option.bind_eq_some_iff] at member
  obtain ⟨entry, counts, here⟩ := member
  obtain ⟨counts, credible⟩ := Option.filter_eq_some_iff.1 counts
  exact ⟨name, type, entry, counts, by simpa using credible, here⟩

theorem honest_trustedSet (request : Request) (name : Name) (type : RecordType) :
    Honest request Option.toList (trustedSet request name type) :=
  (honest_trusted request name type).map fun _ => List.Subset.refl _

theorem honest_collect (request : Request) (name : Name) :
    Honest request id (collect request name) := by
  intro cache shape set member
  change set ∈ List.filterMap _ _ at member
  rw [List.mem_filterMap] at member
  obtain ⟨entry, member, here⟩ := member
  obtain ⟨member, credible⟩ := List.mem_filter.1 member
  obtain ⟨member, counts⟩ := List.mem_filter.1 member
  cases kept : cache.entries? name with
  | none => simp [kept] at member
  | some entries =>
    rw [kept, Option.getD_some] at member
    have found : cache.find? name entry.type = some entry := by
      rw [find?_eq, kept, Option.bind_some]
      exact find?_eq_some_of_mem Entry.type (shape.nodup_types kept) member
    exact ⟨name, entry.type, entry, current?_eq_some.2 ⟨found, by simpa using counts⟩,
      by simpa using credible, here⟩

theorem honest_lookupExact (request : Request) (name : Name) :
    Honest request (·.elim [] Lookup.sets) (lookupExact request name) := by
  unfold lookupExact
  split
  · refine .bind (honest_collect request name) (sheds_collect _ _) fun sets => .inl ⟨_, rfl, ?_⟩
    cases sets <;> simp [Lookup.sets]
  · refine .bind (honest_trusted request name request.type) (sheds_trusted _ _ _) fun entry => ?_
    cases entry with
    | some entry =>
      refine .inl ⟨_, rfl, ?_⟩
      cases here : entry.setAt? request.now <;> simp [here, Lookup.sets]
    | none =>
      refine .inr ((honest_trustedSet request name .cname).map fun set => ?_)
      cases set <;> simp [Lookup.sets]

theorem honest_lookupAtName (request : Request) (name : Name) :
    Honest request (·.elim [] Lookup.sets) (lookupAtName request name) := by
  refine .bind (honest_lookupExact request name) (sheds_lookupExact _ _) fun found => ?_
  cases found with
  | some found => exact .inl ⟨_, rfl, List.Subset.refl _⟩
  | none =>
    refine .inr (.bind (honest_trustedSet request name .ns) (sheds_trustedSet _ _ _) fun set => ?_)
    cases set with
    | some set => exact .inl ⟨_, rfl, by simp [Lookup.sets]⟩
    | none =>
      refine .inr ((honest_trusted request name .nothing).map fun entry => ?_)
      cases entry <;> simp [Lookup.sets]

theorem honest_lookupAtAncestor (request : Request) (ancestor : Name) :
    Honest request (·.elim [] Lookup.sets) (lookupAtAncestor request ancestor) := by
  refine .bind (honest_trustedSet request ancestor .dname) (sheds_trustedSet _ _ _) fun set => ?_
  cases set with
  | some set => exact .inl ⟨_, rfl, by simp [Lookup.sets]⟩
  | none =>
    refine .inr ((honest_trustedSet request ancestor .ns).map fun set => ?_)
    cases set <;> simp [Lookup.sets]

theorem honest_lookupAbove (request : Request) (ancestors : List Name) :
    Honest request Lookup.sets (lookupAbove request ancestors) := by
  induction ancestors with
  | nil => exact fun _ _ _ member => by cases member
  | cons ancestor ancestors ih =>
    refine .bind (honest_lookupAtAncestor request ancestor) (sheds_lookupAtAncestor _ _)
      fun found => ?_
    cases found with
    | some found => exact .inl ⟨_, rfl, List.Subset.refl _⟩
    | none => exact .inr ih

theorem honest_lookupSuffixes (request : Request) (names : List Name) :
    Honest request Lookup.sets (lookupSuffixes request names) := by
  cases names with
  | nil => exact fun _ _ _ member => by cases member
  | cons name ancestors =>
    refine .bind (honest_lookupAtName request name) (sheds_lookupAtName _ _) fun found => ?_
    cases found with
    | some found => exact .inl ⟨_, rfl, List.Subset.refl _⟩
    | none => exact .inr (honest_lookupAbove request ancestors)

/-! ## Lookups -/

/-- A `lookup` drops the names beyond the limit and then reads. -/
theorem lookup_apply {name : Name} (absolute : name.absolute = true) (type : RecordType)
    (least : Credibility) (now : Duration) (cache : Cache) :
    lookup name type least now cache =
      (.ok (lookupSuffixes ⟨type, least, now⟩ name.suffixes cache.evict).1,
        (lookupSuffixes ⟨type, least, now⟩ name.suffixes cache.evict).2) := by
  unfold lookup
  rw [if_pos absolute]
  rfl

theorem lookup_relative {name : Name} (relative : name.absolute = false) (type : RecordType)
    (least : Credibility) (now : Duration) (cache : Cache) :
    lookup name type least now cache = (.error (.relativeInCache name), cache) := by
  unfold lookup
  rw [relative]
  rfl

/-- Every record `set` that a `lookup` finds comes from an entry that counts and can be trusted. -/
theorem serves_lookup {cache : Cache} (shape : cache.WellFormed) {name : Name} {type : RecordType}
    {least : Credibility} {now : Duration} {found : Lookup}
    (result : (lookup name type least now cache).1 = .ok found) :
    ∀ set ∈ found.sets, cache.Serves ⟨type, least, now⟩ set := by
  cases absolute : name.absolute with
  | false => simp [lookup_relative absolute] at result
  | true =>
    rw [lookup_apply absolute] at result
    obtain rfl := Except.ok.inj result
    intro set member
    obtain ⟨owner, kind, entry, counts, rest⟩ :=
      honest_lookupSuffixes _ _ cache.evict shape.evict set member
    obtain ⟨kept, counts⟩ := current?_eq_some.1 counts
    exact ⟨owner, kind, entry, current?_eq_some.2 ⟨find?_evict_eq_some cache kept, counts⟩, rest⟩

theorem suffixes_eq_cons (name : Name) : ∃ ancestors, name.suffixes = name :: ancestors := by
  obtain ⟨_ | ⟨label, labels⟩, absolute, fits⟩ := name
  · exact ⟨[], rfl⟩
  · exact ⟨_, rfl⟩

/-- An `entry` for the `type` asked for that counts and can be trusted is what is found. -/
theorem lookup_of_current {cache : Cache} {name : Name} (absolute : name.absolute = true)
    {type : RecordType} (single : type ≠ .any) {least : Credibility} {now : Duration}
    {entry : Entry} (counts : cache.evict.current? name type now = some entry)
    (credible : least ≤ entry.credibility) :
    (lookup name type least now cache).1 = .ok (match entry.setAt? now with
      | some set => .successful [set]
      | none => .nxRrset) := by
  obtain ⟨ancestors, suffixes⟩ := suffixes_eq_cons name
  -- The name itself is the first suffix, and what is asked for is the first thing looked for there.
  have here : (lookupExact ⟨type, least, now⟩ name cache.evict).1 =
      some (match entry.setAt? now with
        | some set => .successful [set]
        | none => .nxRrset) := by
    unfold lookupExact
    rw [if_neg single, stateM_bind_apply, trusted_apply, counts]
    simp only [Option.filter, credible, decide_true, if_true]
    cases entry.setAt? now <;> rfl
  have atName : (lookupAtName ⟨type, least, now⟩ name cache.evict).1 =
      some (match entry.setAt? now with
        | some set => .successful [set]
        | none => .nxRrset) := by
    unfold lookupAtName
    rw [stateM_bind_apply, here]
    rfl
  have found : (lookupSuffixes ⟨type, least, now⟩ (name :: ancestors) cache.evict).1 =
      match entry.setAt? now with
        | some set => .successful [set]
        | none => .nxRrset := by
    rw [lookupSuffixes, stateM_bind_apply, atName]
    rfl
  rw [lookup_apply absolute, suffixes, found]

end Cache

/-- What is `found` is not what there is of the type asked for, nor that there is nothing of it. -/
def Lookup.Misses (found : Lookup) : Prop := found.isSuccessful = false ∧ found ≠ .nxRrset

namespace Cache

theorem misses_lookupAtAncestor (request : Request) (ancestor : Name) (cache : Cache) :
    ∀ found, (lookupAtAncestor request ancestor cache).1 = some found → found.Misses := by
  unfold lookupAtAncestor
  rw [stateM_bind_apply]
  cases (trustedSet request ancestor .dname cache).1 with
  | some set => rintro _ ⟨⟩; exact ⟨rfl, by simp⟩
  | none =>
    intro found result
    obtain ⟨set, -, rfl⟩ := Option.map_eq_some_iff.1 result
    exact ⟨rfl, by simp⟩

theorem misses_lookupAbove (request : Request) (ancestors : List Name) (cache : Cache) :
    (lookupAbove request ancestors cache).1.Misses := by
  induction ancestors generalizing cache with
  | nil => exact ⟨rfl, by simp [lookupAbove]⟩
  | cons ancestor ancestors ih =>
    unfold lookupAbove
    rw [stateM_bind_apply]
    cases here : (lookupAtAncestor request ancestor cache).1 with
    | some found => exact misses_lookupAtAncestor request ancestor cache found here
    | none => exact ih _

theorem misses_lookupExact (request : Request) {name : Name} {cache : Cache}
    (single : request.type ≠ .any)
    (unknown : cache.current? name request.type request.now = none) :
    ∀ found, (lookupExact request name cache).1 = some found → found.Misses := by
  unfold lookupExact
  rw [if_neg single, stateM_bind_apply, trusted_apply, unknown]
  intro found result
  obtain ⟨set, -, rfl⟩ := Option.map_eq_some_iff.1 result
  exact ⟨rfl, by simp⟩

theorem misses_lookupAtName (request : Request) {name : Name} {cache : Cache}
    (single : request.type ≠ .any)
    (unknown : cache.current? name request.type request.now = none) :
    ∀ found, (lookupAtName request name cache).1 = some found → found.Misses := by
  unfold lookupAtName
  rw [stateM_bind_apply]
  cases here : (lookupExact request name cache).1 with
  | some found =>
    rintro _ ⟨⟩
    exact misses_lookupExact request single unknown found here
  | none =>
    simp only [stateM_bind_apply]
    cases (trustedSet request name .ns (lookupExact request name cache).2).1 with
    | some set => rintro _ ⟨⟩; exact ⟨rfl, by simp⟩
    | none =>
      intro found result
      obtain ⟨set, -, rfl⟩ := Option.map_eq_some_iff.1 result
      exact ⟨rfl, by simp⟩

/-- Without an entry for the `type` asked for that counts, nothing is found of this type at the
`name` itself. -/
theorem lookup_of_not_current {cache : Cache} {name : Name} (absolute : name.absolute = true)
    {type : RecordType} (single : type ≠ .any) (least : Credibility) {now : Duration}
    (unknown : cache.evict.current? name type now = none) :
    ∃ found, (lookup name type least now cache).1 = .ok found ∧ found.Misses := by
  obtain ⟨ancestors, suffixes⟩ := suffixes_eq_cons name
  refine ⟨_, by rw [lookup_apply absolute, suffixes], ?_⟩
  rw [lookupSuffixes, stateM_bind_apply]
  cases here : (lookupAtName ⟨type, least, now⟩ name cache.evict).1 with
  | some found => exact misses_lookupAtName ⟨type, least, now⟩ single unknown found here
  | none => exact misses_lookupAbove _ _ _

end Cache

end NameResolution
