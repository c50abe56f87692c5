import NameResolution.Cache.Store

/-!
# Laws of the store of a cache

What is seen of a cache are the entries of each name (`Cache.entries?`), and among them the entry
for each type (`Cache.find?`).

* `Cache.entries?_setEntries`, `Cache.find?_remove`, `Cache.find?_place` and their like: each
  operation on the store changes what is seen of one name only, or of one name and type.
* `Cache.excess`: the names beyond the limit. `Cache.entries?_evict`: these go, and no others.
* `Cache.WellFormed`: no name is kept twice, and no type twice at a name. All operations keep this.
-/

namespace NameResolution

/-! ## Lists with keys -/

section Keys

variable {α κ : Type} [DecidableEq κ] (key : α → κ)

theorem find?_filter_key (items : List α) (own other : κ) :
    (items.filter (key · ≠ own)).find? (key · = other) =
      if other = own then none else items.find? (key · = other) := by
  rw [List.find?_filter]
  split
  · rename_i same
    simp [same]
  · rename_i different
    congr 1
    funext item
    by_cases found : key item = other
    · simp [found, different]
    · simp [found]

theorem find?_map_key (items : List α) (item : α) (other : κ) :
    (items.map fun old => if key old = key item then item else old).find? (key · = other) =
      if other = key item then (items.find? (key · = key item)).map fun _ => item
      else items.find? (key · = other) := by
  induction items with
  | nil => simp
  | cons first items ih =>
    rw [List.map_cons, List.find?_cons, List.find?_cons, List.find?_cons, ih]
    by_cases here : key first = key item
    · by_cases same : other = key item
      · simp [here, same]
      · simp [here, same, Ne.symm same]
    · by_cases same : other = key item
      · simp [here, same]
      · simp [here, same]

/-- Among `items` with different keys, each is found by its `key`. -/
theorem find?_eq_some_of_mem {items : List α} (nodup : (items.map key).Nodup) {item : α}
    (member : item ∈ items) : items.find? (key · = key item) = some item := by
  induction items with
  | nil => cases member
  | cons first items ih =>
    rw [List.map_cons, List.nodup_cons] at nodup
    rw [List.find?_cons]
    rcases List.mem_cons.1 member with rfl | later
    · simp
    · have different : key first ≠ key item := fun same =>
        nodup.1 (List.mem_map.2 ⟨item, later, same.symm⟩)
      simp [different, ih nodup.2 later]

/-- Among `items` with different keys, the one with a `key` is found unless it is filtered out. -/
theorem find?_filter_of_nodup {items : List α} (nodup : (items.map key).Nodup) (p : α → Bool)
    (own : κ) : (items.filter p).find? (key · = own) = (items.find? (key · = own)).filter p := by
  induction items with
  | nil => rfl
  | cons first items ih =>
    rw [List.map_cons, List.nodup_cons] at nodup
    rw [List.find?_cons]
    by_cases here : key first = own
    · have absent : ∀ item ∈ items, key item ≠ own := fun item member same =>
        nodup.1 (List.mem_map.2 ⟨item, member, same.trans here.symm⟩)
      have gone : (items.filter p).find? (key · = own) = none := by
        rw [List.find?_eq_none]
        exact fun item member => by simpa using absent item (List.mem_filter.1 member).1
      cases counts : p first <;> simp [here, counts, gone, Option.filter]
    · cases counts : p first <;> simp [here, counts, ih nodup.2]

end Keys

namespace Cache

/-! ## The entries of names -/

theorem entries?_eq (cache : Cache) (name : Name) :
    cache.entries? name = (cache.names.find? (·.1 = name.fold)).map Prod.snd := rfl

theorem entries?_congr (cache : Cache) {name other : Name} (same : name.fold = other.fold) :
    cache.entries? name = cache.entries? other := by
  simp only [entries?_eq, same]

theorem find?_others (cache : Cache) (name : Name) (key : Name) :
    (cache.others name).find? (·.1 = key) =
      if key = name.fold then none else cache.names.find? (·.1 = key) :=
  find?_filter_key Prod.fst cache.names name.fold key

theorem entries?_touch (cache : Cache) (name other : Name) :
    (cache.touch name).entries? other = cache.entries? other := by
  unfold touch
  split
  · rename_i entries kept
    rw [entries?_eq, List.find?_cons]
    by_cases same : name.fold = other.fold
    · rw [entries?_congr cache same] at kept
      simp [same, kept]
    · simp [same, find?_others, Ne.symm same, entries?_eq]
  · rfl

theorem entries?_removeName (cache : Cache) (name other : Name) :
    (cache.removeName name).entries? other =
      if other.fold = name.fold then none else cache.entries? other := by
  simp only [removeName, entries?_eq, find?_others]
  split <;> rfl

/-- Other `entries` for a `name` that is kept change what is seen of this name only. -/
theorem entries?_setEntries (cache : Cache) (name : Name) (entries : List Entry) (other : Name) :
    (cache.setEntries name entries).entries? other =
      if other.fold = name.fold then
        if entries.isEmpty then none else (cache.entries? name).map fun _ => entries
      else cache.entries? other := by
  unfold setEntries
  split
  · exact entries?_removeName cache name other
  have found := find?_map_key Prod.fst cache.names (name.fold, entries) other.fold
  simp only [entries?_eq, found]
  split <;> simp [Option.map_map, Function.comp_def]

theorem entries?_place (cache : Cache) (name : Name) (entry : Entry) (other : Name) :
    (cache.place name entry).entries? other =
      if other.fold = name.fold then some (putEntry ((cache.entries? name).getD []) entry)
      else cache.entries? other := by
  unfold place
  split
  · rename_i entries kept
    have nonempty : (putEntry entries entry).isEmpty = false := by
      unfold putEntry
      split
      · rename_i present
        cases entries with
        | nil => simp at present
        | cons first rest => rfl
      · simp
    simp [entries?_setEntries, entries?_touch, kept, nonempty]
  · rename_i unknown
    rw [entries?_eq, List.find?_cons]
    by_cases same : other.fold = name.fold
    · simp [same, unknown, putEntry]
    · simp [same, Ne.symm same, entries?_eq]

/-! ## Limits -/

/-- The names that are beyond the limit of the `cache`. -/
def excess (cache : Cache) : List Name :=
  (cache.names.drop cache.settings.maxNames).map Prod.fst

/-- A `name` within the limit keeps its entries. -/
theorem entries?_evict (cache : Cache) {name : Name} (within : name.fold ∉ cache.excess) :
    cache.evict.entries? name = cache.entries? name := by
  have beyond : (cache.names.drop cache.settings.maxNames).find? (·.1 = name.fold) = none := by
    rw [List.find?_eq_none]
    intro item dropped same
    exact within (List.mem_map.2 ⟨item, dropped, by simpa using same⟩)
  rw [entries?_eq, entries?_eq]
  conv => rhs; rw [← List.take_append_drop cache.settings.maxNames cache.names]
  rw [List.find?_append, beyond, Option.or_none]
  rfl

/-- Nothing is seen of a `name` after dropping names but what was seen before. -/
theorem entries?_evict_eq_some (cache : Cache) {name : Name} {entries : List Entry}
    (kept : cache.evict.entries? name = some entries) : cache.entries? name = some entries := by
  rw [entries?_eq]
  rw [entries?_eq, evict] at kept
  rw [← List.take_append_drop cache.settings.maxNames cache.names, List.find?_append]
  cases found : (cache.names.take cache.settings.maxNames).find? (·.1 = name.fold) with
  | none => simp [found] at kept
  | some item => simpa [found] using kept

/-! ## The entries for names and types -/

theorem find?_eq (cache : Cache) (name : Name) (type : RecordType) :
    cache.find? name type = (cache.entries? name).bind (List.find? (·.type = type)) := rfl

theorem find?_congr (cache : Cache) {name other : Name} (same : name.fold = other.fold)
    (type : RecordType) : cache.find? name type = cache.find? other type := by
  rw [find?_eq, entries?_congr cache same, find?_eq]

theorem type_of_find? {cache : Cache} {name : Name} {type : RecordType} {entry : Entry}
    (found : cache.find? name type = some entry) : entry.type = type := by
  rw [find?_eq, Option.bind_eq_some_iff] at found
  obtain ⟨entries, -, found⟩ := found
  simpa using List.find?_some found

theorem find?_touch (cache : Cache) (name other : Name) (type : RecordType) :
    (cache.touch name).find? other type = cache.find? other type := by
  rw [find?_eq, entries?_touch, find?_eq]

theorem find?_removeName (cache : Cache) (name other : Name) (type : RecordType) :
    (cache.removeName name).find? other type =
      if other.fold = name.fold then none else cache.find? other type := by
  rw [find?_eq, entries?_removeName]
  split <;> rfl

/-- The `Entry` for a `type` after giving a `name` other `entries`, with this entry among them. -/
theorem find?_setEntries (cache : Cache) (name : Name) (entries : List Entry) (other : Name)
    (type : RecordType) :
    (cache.setEntries name entries).find? other type =
      if other.fold = name.fold then
        (cache.entries? name).bind fun _ => entries.find? (·.type = type)
      else cache.find? other type := by
  rw [find?_eq, entries?_setEntries]
  by_cases same : other.fold = name.fold
  · rw [if_pos same, if_pos same]
    cases entries with
    | nil => simp
    | cons first rest =>
      rw [List.isEmpty_cons, if_neg Bool.false_ne_true, Option.bind_map]
      rfl
  · rw [if_neg same, if_neg same, find?_eq]

theorem find?_remove (cache : Cache) (name : Name) (type : RecordType) (other : Name)
    (asked : RecordType) :
    (cache.remove name type).find? other asked =
      if other.fold = name.fold ∧ asked = type then none else cache.find? other asked := by
  unfold remove
  cases kept : cache.entries? name with
  | none =>
    simp only
    split
    · rename_i same
      rw [find?_eq, entries?_congr cache same.1, kept, Option.bind_none]
    · rfl
  | some entries =>
    simp only [find?_setEntries, kept, Option.bind_some, find?_filter_key Entry.type]
    by_cases same : other.fold = name.fold
    · simp [same, find?_eq, entries?_congr cache same, kept]
    · simp [same]

theorem find?_replace (cache : Cache) (name : Name) (entry : Entry) (other : Name)
    (asked : RecordType) :
    (cache.replace name entry).find? other asked =
      if other.fold = name.fold ∧ asked = entry.type then
        (cache.find? name entry.type).map fun _ => entry
      else cache.find? other asked := by
  unfold replace
  cases kept : cache.entries? name with
  | none =>
    simp only
    split
    · rename_i same
      simp [find?_eq, entries?_congr cache same.1, kept]
    · rfl
  | some entries =>
    simp only [find?_setEntries, kept, Option.bind_some, find?_map_key Entry.type]
    by_cases same : other.fold = name.fold
    · simp [same, find?_eq, entries?_congr cache same, kept]
    · simp [same]

theorem find?_putEntry (entries : List Entry) (entry : Entry) (asked : RecordType) :
    (putEntry entries entry).find? (·.type = asked) =
      if asked = entry.type then some entry else entries.find? (·.type = asked) := by
  unfold putEntry
  split
  · rename_i present
    rw [find?_map_key Entry.type]
    split
    · cases found : entries.find? (·.type = entry.type) with
      | none =>
        rw [List.any_eq_true] at present
        obtain ⟨old, member, same⟩ := present
        exact absurd same (List.find?_eq_none.1 found old member)
      | some old => rfl
    · rfl
  · rename_i absent
    have unknown : entries.find? (·.type = entry.type) = none := by simpa using absent
    rw [List.find?_append]
    by_cases same : asked = entry.type
    · simp [same, unknown]
    · simp [same, Ne.symm same]

/-- Putting in an `entry` changes what is seen of its `name` and `type` only. -/
theorem find?_place (cache : Cache) (name : Name) (entry : Entry) (other : Name)
    (asked : RecordType) :
    (cache.place name entry).find? other asked =
      if other.fold = name.fold ∧ asked = entry.type then some entry
      else cache.find? other asked := by
  rw [find?_eq, entries?_place]
  by_cases same : other.fold = name.fold
  · rw [if_pos same, Option.bind_some, find?_putEntry, find?_eq, entries?_congr cache same]
    cases cache.entries? name <;> simp [same]
  · simp [same, find?_eq]

theorem find?_evict (cache : Cache) {name : Name} (within : name.fold ∉ cache.excess)
    (type : RecordType) : cache.evict.find? name type = cache.find? name type := by
  rw [find?_eq, entries?_evict cache within, find?_eq]

theorem find?_evict_eq_some (cache : Cache) {name : Name} {type : RecordType} {entry : Entry}
    (found : cache.evict.find? name type = some entry) :
    cache.find? name type = some entry := by
  rw [find?_eq, Option.bind_eq_some_iff] at found ⊢
  obtain ⟨entries, kept, found⟩ := found
  exact ⟨entries, entries?_evict_eq_some cache kept, found⟩

/-! ## Shape -/

/-- The names of the `cache` are folded and kept once. Each has entries, at most one of a type. -/
structure WellFormed (cache : Cache) : Prop where
  folded : ∀ item ∈ cache.names, item.1.fold = item.1
  distinct : (cache.names.map Prod.fst).Nodup
  filled : ∀ item ∈ cache.names, item.2 ≠ []
  types : ∀ item ∈ cache.names, (item.2.map Entry.type).Nodup

theorem wellFormed_empty (settings : CacheSettings) : (empty settings).WellFormed := by
  constructor <;> simp [empty]

theorem mem_of_entries? {cache : Cache} {name : Name} {entries : List Entry}
    (kept : cache.entries? name = some entries) : (name.fold, entries) ∈ cache.names := by
  rw [entries?_eq, Option.map_eq_some_iff] at kept
  obtain ⟨item, found, rfl⟩ := kept
  have same : item.1 = name.fold := by simpa using List.find?_some found
  rw [← same]
  exact List.mem_of_find?_eq_some found

namespace WellFormed

variable {cache : Cache}

theorem nodup_types (shape : cache.WellFormed) {name : Name} {entries : List Entry}
    (kept : cache.entries? name = some entries) : (entries.map Entry.type).Nodup :=
  shape.types _ (mem_of_entries? kept)

theorem of_sublist (shape : cache.WellFormed) {names : List (Name × List Entry)}
    (sublist : names.Sublist cache.names) : WellFormed { cache with names := names } where
  folded := fun item member => shape.folded item (sublist.subset member)
  distinct := shape.distinct.sublist (sublist.map _)
  filled := fun item member => shape.filled item (sublist.subset member)
  types := fun item member => shape.types item (sublist.subset member)

theorem cons (shape : cache.WellFormed) {name : Name} {entries : List Entry}
    (unknown : ∀ item ∈ cache.names, item.1 ≠ name.fold) (nonempty : entries ≠ [])
    (nodup : (entries.map Entry.type).Nodup) :
    WellFormed { cache with names := (name.fold, entries) :: cache.names } where
  folded := List.forall_mem_cons.2 ⟨Name.fold_fold name, shape.folded⟩
  distinct := by
    refine List.nodup_cons.2 ⟨fun member => ?_, shape.distinct⟩
    obtain ⟨item, member, same⟩ := List.mem_map.1 member
    exact unknown item member same
  filled := List.forall_mem_cons.2 ⟨nonempty, shape.filled⟩
  types := List.forall_mem_cons.2 ⟨nodup, shape.types⟩

theorem removeName (shape : cache.WellFormed) (name : Name) : (cache.removeName name).WellFormed :=
  shape.of_sublist List.filter_sublist

theorem clear (cache : Cache) : cache.clear.WellFormed := by
  constructor <;> simp [Cache.clear]

theorem evict (shape : cache.WellFormed) : cache.evict.WellFormed :=
  shape.of_sublist (List.take_sublist ..)

theorem touch (shape : cache.WellFormed) (name : Name) : (cache.touch name).WellFormed := by
  unfold Cache.touch
  split
  · rename_i entries kept
    have member := mem_of_entries? kept
    refine (shape.removeName name).cons (fun item other => ?_) (shape.filled _ member)
      (shape.types _ member)
    simpa using (List.mem_filter.1 other).2
  · exact shape

theorem setEntries (shape : cache.WellFormed) (name : Name) {entries : List Entry}
    (nodup : (entries.map Entry.type).Nodup) : (cache.setEntries name entries).WellFormed := by
  unfold Cache.setEntries
  split
  · exact shape.removeName name
  rename_i nonempty
  -- Names stay as they are, so only the entries of this one are to be looked at.
  have each (item : Name × List Entry) (member : item ∈ cache.names) :
      (if item.1 = name.fold then (name.fold, entries) else item).1 = item.1 := by
    split
    · rename_i here
      exact here.symm
    · rfl
  refine ⟨?_, ?_, ?_, ?_⟩
  · intro item member
    obtain ⟨old, kept, rfl⟩ := List.mem_map.1 member
    rw [each old kept]
    exact shape.folded old kept
  · have keys : (cache.names.map fun item =>
        if item.1 = name.fold then (name.fold, entries) else item).map Prod.fst =
        cache.names.map Prod.fst := by
      rw [List.map_map]
      exact List.map_congr_left each
    rw [keys]
    exact shape.distinct
  · intro item member
    obtain ⟨old, kept, rfl⟩ := List.mem_map.1 member
    split
    · simpa using nonempty
    · exact shape.filled old kept
  · intro item member
    obtain ⟨old, kept, rfl⟩ := List.mem_map.1 member
    split
    · exact nodup
    · exact shape.types old kept

theorem remove (shape : cache.WellFormed) (name : Name) (type : RecordType) :
    (cache.remove name type).WellFormed := by
  unfold Cache.remove
  split
  · rename_i entries kept
    exact shape.setEntries name
      ((shape.nodup_types kept).sublist (List.filter_sublist.map _))
  · exact shape

theorem map_type_replaced (entries : List Entry) (entry : Entry) :
    (entries.map fun old => if old.type = entry.type then entry else old).map Entry.type =
      entries.map Entry.type := by
  rw [List.map_map]
  refine List.map_congr_left fun old _ => ?_
  by_cases same : old.type = entry.type <;> simp [same]

theorem replace (shape : cache.WellFormed) (name : Name) (entry : Entry) :
    (cache.replace name entry).WellFormed := by
  unfold Cache.replace
  split
  · rename_i entries kept
    refine shape.setEntries name ?_
    rw [map_type_replaced]
    exact shape.nodup_types kept
  · exact shape

theorem nodup_putEntry {entries : List Entry} (nodup : (entries.map Entry.type).Nodup)
    (entry : Entry) : ((putEntry entries entry).map Entry.type).Nodup := by
  unfold putEntry
  split
  · rw [map_type_replaced]
    exact nodup
  · rename_i absent
    rw [List.map_append, List.nodup_append]
    refine ⟨nodup, by simp, fun type member other new same => absent ?_⟩
    obtain ⟨old, kept, rfl⟩ := List.mem_map.1 member
    rw [List.any_eq_true]
    exact ⟨old, kept, by simpa [← same] using new⟩

theorem place (shape : cache.WellFormed) (name : Name) (entry : Entry) :
    (cache.place name entry).WellFormed := by
  unfold Cache.place
  split
  · rename_i entries kept
    exact (shape.touch name).setEntries name (nodup_putEntry (shape.nodup_types kept) entry)
  · rename_i unknown
    refine shape.cons (fun item member same => ?_) (by simp) (by simp)
    rw [entries?_eq, Option.map_eq_none_iff, List.find?_eq_none] at unknown
    exact unknown item member (by simpa using same)

theorem insert (shape : cache.WellFormed) (name : Name) (entry : Entry) :
    (cache.insert name entry).WellFormed :=
  (shape.place name entry).evict

/-- A `name` in the `excess` goes. -/
theorem entries?_evict_eq_none (shape : cache.WellFormed) {name : Name}
    (beyond : name.fold ∈ cache.excess) : cache.evict.entries? name = none := by
  obtain ⟨item, dropped, same⟩ := List.mem_map.1 beyond
  have nodup := shape.distinct
  rw [← List.take_append_drop cache.settings.maxNames cache.names, List.map_append,
    List.nodup_append] at nodup
  rw [entries?_eq, Option.map_eq_none_iff, List.find?_eq_none]
  intro other member found
  have here : other.1 = name.fold := by simpa using found
  exact nodup.2.2 _ (List.mem_map_of_mem member) _ (List.mem_map_of_mem dropped)
    (here.trans same.symm)

end WellFormed

end Cache

end NameResolution
