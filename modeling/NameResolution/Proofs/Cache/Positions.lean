import NameResolution.Proofs.Cache.Recency

/-!
# Entries by their positions

The store of a cache has the entries of a name in a row. An access that looks for the entry of a
type can go by the position of this entry: it is found once, and then the entry at this position is
read, overwritten or removed. Going by positions leads to the same as going by types, and no
position is ever used that there is no entry at.

* `Cache.position?`, `Cache.entryAt?`, `Cache.removeAt?`, `Cache.overwriteAt?`: what can be done by
  position.
* `Cache.liveAt?`, `Cache.placeAt?`: the operations on the store that find an entry and then use it.
* `Cache.Access.performAt?`: an access that goes by positions. `Cache.Access.performAt?_eq`: it does
  what the access does. `Cache.Access.foldlM_performAt?`: the same for accesses one after the other.
-/

namespace NameResolution

/-! ## Positions in lists with keys -/

section Keys

variable {α κ : Type} [DecidableEq κ] {key : α → κ} {items : List α} {own : κ} {position : Nat}

/-- Among `items` with different keys, the first one with a `key` is the only one, and it is removed
by its `position`. -/
theorem eraseIdx_of_findIdx? (nodup : (items.map key).Nodup)
    (found : items.findIdx? (key · = own) = some position) :
    items.eraseIdx position = items.filter (key · ≠ own) := by
  induction items generalizing position with
  | nil => cases found
  | cons first items ih =>
    rw [List.map_cons, List.nodup_cons] at nodup
    rw [List.findIdx?_cons] at found
    by_cases here : key first = own
    · rw [if_pos (decide_eq_true here)] at found
      obtain rfl := Option.some.inj found
      have others : ∀ item ∈ items, decide (key item ≠ own) = true := fun item member =>
        decide_eq_true fun same =>
          nodup.1 (List.mem_map.mpr ⟨item, member, same.trans here.symm⟩)
      rw [List.eraseIdx_cons_zero, List.filter_cons_of_neg (by simpa using here),
        List.filter_eq_self.mpr others]
    · rw [if_neg (by simpa using here), Option.map_eq_some_iff] at found
      obtain ⟨position, found, rfl⟩ := found
      rw [List.eraseIdx_cons_succ, List.filter_cons_of_pos (by simpa using here), ih nodup.2 found]

/-- Among `items` with different keys, the one with a `key` is overwritten by its `position`. -/
theorem set_of_findIdx? (nodup : (items.map key).Nodup) (item : α)
    (found : items.findIdx? (key · = key item) = some position) :
    items.set position item = items.map fun old => if key old = key item then item else old := by
  induction items generalizing position with
  | nil => cases found
  | cons first items ih =>
    rw [List.map_cons, List.nodup_cons] at nodup
    rw [List.findIdx?_cons] at found
    by_cases here : key first = key item
    · rw [if_pos (decide_eq_true here)] at found
      obtain rfl := Option.some.inj found
      have others : (items.map fun old => if key old = key item then item else old) = items := by
        refine (List.map_congr_left fun old member => ?_).trans (List.map_id items)
        exact if_neg fun same => nodup.1 (List.mem_map.mpr ⟨old, member, same.trans here.symm⟩)
      rw [List.set_cons_zero, List.map_cons, if_pos here, others]
    · rw [if_neg (by simpa using here), Option.map_eq_some_iff] at found
      obtain ⟨position, found, rfl⟩ := found
      rw [List.set_cons_succ, List.map_cons, if_neg here, ih nodup.2 found]

end Keys

namespace Cache

/-! ## Entries at positions -/

/-- Where the entry for a `name` and `type` is among the entries of the name. -/
def position? (cache : Cache) (name : Name) (type : RecordType) : Option Nat :=
  (cache.entries? name).bind (List.findIdx? (·.type = type))

/-- The `Entry` of a `name` at a `position`, if there is one. -/
def entryAt? (cache : Cache) (name : Name) (position : Nat) : Option Entry :=
  (cache.entries? name).bind (·[position]?)

/-- Changes the entries of a `name`, provided that there is one at a `position`. -/
def changeAt? (cache : Cache) (name : Name) (position : Nat) (change : List Entry → List Entry) :
    Option Cache :=
  match cache.entries? name with
  | some entries =>
    if position < entries.length then some (cache.setEntries name (change entries)) else none
  | none => none

/-- Removes the entry of a `name` at a `position`, and the name along with its last entry. -/
def removeAt? (cache : Cache) (name : Name) (position : Nat) : Option Cache :=
  cache.changeAt? name position (·.eraseIdx position)

/-- Overwrites the `entry` of a `name` at a `position`. -/
def overwriteAt? (cache : Cache) (name : Name) (position : Nat) (entry : Entry) : Option Cache :=
  cache.changeAt? name position (·.set position entry)

/-- Looks for the `Entry` of a `name` and `type` that still counts, and uses the name. The entry is
read by its position to see whether it counts. By the same position it is then removed, or read
again. -/
def liveAt? (cache : Cache) (name : Name) (type : RecordType) (now : Duration) :
    Option (Option Entry × Cache) :=
  match (cache.touch name).position? name type with
  | none => some (none, cache.touch name)
  | some position =>
    ((cache.touch name).entryAt? name position).bind fun entry =>
      if entry.IsExpired now then
        ((cache.touch name).removeAt? name position).map fun next => (none, next)
      else
        ((cache.touch name).entryAt? name position).map fun entry => (some entry, cache.touch name)

/-- Puts in an `entry`, which uses its `name`: at the position of the one of its type, or behind the
others. -/
def placeAt? (cache : Cache) (name : Name) (entry : Entry) : Option Cache :=
  match cache.entries? name with
  | none => some { cache with names := (name.fold, [entry]) :: cache.names }
  | some entries =>
    match (cache.touch name).position? name entry.type with
    | some position => (cache.touch name).overwriteAt? name position entry
    | none => some ((cache.touch name).setEntries name (entries ++ [entry]))

variable {cache : Cache} {name : Name} {type : RecordType} {position : Nat}

/-- At the `position` that is found there is the `entry` for the `type`. -/
theorem entryAt?_of_position? (found : cache.position? name type = some position) :
    ∃ entry, cache.entryAt? name position = some entry ∧ cache.find? name type = some entry := by
  obtain ⟨entries, kept, first⟩ := Option.bind_eq_some_iff.mp found
  obtain ⟨bound, -⟩ := List.findIdx?_eq_some_iff_getElem.mp first
  refine ⟨entries[position], ?_, ?_⟩
  · rw [entryAt?, kept, Option.bind_some, List.getElem?_eq_getElem bound]
  · rw [find?_eq, kept, Option.bind_some, List.find?_eq_bind_findIdx?_getElem?, first,
      Option.bind_some, List.getElem?_eq_getElem bound]

theorem find?_of_position?_eq_none (unknown : cache.position? name type = none) :
    cache.find? name type = none := by
  rw [find?_eq]
  cases kept : cache.entries? name with
  | none => rfl
  | some entries =>
    rw [position?, kept, Option.bind_some] at unknown
    rw [Option.bind_some, List.find?_eq_bind_findIdx?_getElem?, unknown, Option.bind_none]

/-- The `position` that is found is one of an `Entry` that can be changed. -/
theorem changeAt?_of_position? {entries : List Entry} (kept : cache.entries? name = some entries)
    (found : cache.position? name type = some position) (change : List Entry → List Entry) :
    cache.changeAt? name position change = some (cache.setEntries name (change entries)) := by
  rw [position?, kept, Option.bind_some] at found
  obtain ⟨bound, -⟩ := List.findIdx?_eq_some_iff_getElem.mp found
  unfold changeAt?
  rw [kept]
  exact if_pos bound

namespace WellFormed

theorem removeAt? (shape : cache.WellFormed) (found : cache.position? name type = some position) :
    cache.removeAt? name position = some (cache.remove name type) := by
  obtain ⟨entries, kept, first⟩ := Option.bind_eq_some_iff.mp found
  unfold Cache.removeAt? Cache.remove
  rw [changeAt?_of_position? kept found, kept,
    eraseIdx_of_findIdx? (shape.nodup_types kept) first]

theorem overwriteAt? (shape : cache.WellFormed) {entry : Entry}
    (found : cache.position? name entry.type = some position) :
    cache.overwriteAt? name position entry = some (cache.replace name entry) := by
  obtain ⟨entries, kept, first⟩ := Option.bind_eq_some_iff.mp found
  unfold Cache.overwriteAt?
  rw [changeAt?_of_position? kept found, replace_of_known kept,
    set_of_findIdx? (shape.nodup_types kept) entry first]

/-- Entries that a `name` has already change nothing. -/
theorem setEntries_self (shape : cache.WellFormed) {entries : List Entry}
    (kept : cache.entries? name = some entries) : cache.setEntries name entries = cache := by
  have member := mem_of_entries? kept
  have nonempty : entries.isEmpty = false := List.isEmpty_eq_false_iff.mpr (shape.filled _ member)
  have same : (cache.names.map fun item =>
      if item.1 = name.fold then (name.fold, entries) else item) = cache.names := by
    refine (List.map_congr_left fun item among => ?_).trans (List.map_id cache.names)
    split
    · -- Names are kept once, so the item that is set is the one that was found.
      rename_i here
      have first := find?_eq_some_of_mem Prod.fst shape.distinct among
      rw [here, find?_eq_some_of_mem Prod.fst shape.distinct member] at first
      exact Option.some.inj first
    · rfl
  rw [setEntries_of_nonempty cache name nonempty, same]

/-- To `remove` changes nothing where `find?` finds nothing. -/
theorem remove_eq_self (shape : cache.WellFormed) (unknown : cache.find? name type = none) :
    cache.remove name type = cache := by
  unfold Cache.remove
  cases kept : cache.entries? name with
  | none => rfl
  | some entries =>
    rw [find?_eq, kept, Option.bind_some, List.find?_eq_none] at unknown
    have all : entries.filter (·.type ≠ type) = entries :=
      List.filter_eq_self.mpr fun entry member => by simpa using unknown entry member
    dsimp only
    rw [all, shape.setEntries_self kept]

/-- To `replace` changes nothing where `find?` finds nothing. -/
theorem replace_eq_self (shape : cache.WellFormed) {entry : Entry}
    (unknown : cache.find? name entry.type = none) : cache.replace name entry = cache := by
  cases kept : cache.entries? name with
  | none => exact replace_of_unknown kept entry
  | some entries =>
    rw [find?_eq, kept, Option.bind_some, List.find?_eq_none] at unknown
    have all : (entries.map fun old => if old.type = entry.type then entry else old) = entries := by
      refine (List.map_congr_left fun old member => ?_).trans (List.map_id entries)
      exact if_neg (by simpa using unknown old member)
    rw [replace_of_known kept, all, shape.setEntries_self kept]

/-- The entry that is found, removed or given back by its position is the one for the `type`. -/
theorem liveAt? (shape : cache.WellFormed) (name : Name) (type : RecordType) (now : Duration) :
    cache.liveAt? name type now = some (live name type now cache) := by
  have shape' := shape.touch name
  unfold Cache.liveAt? live
  rw [stateM_bind_apply, stateM_get_apply, ← find?_touch cache name]
  cases found : (cache.touch name).position? name type with
  | none =>
    rw [find?_of_position?_eq_none found]
    rfl
  | some position =>
    obtain ⟨entry, there, known⟩ := entryAt?_of_position? found
    dsimp only
    rw [there, known, shape'.removeAt? found]
    by_cases expired : entry.IsExpired now <;> simp [expired]

theorem placeAt? (shape : cache.WellFormed) (name : Name) (entry : Entry) :
    cache.placeAt? name entry = some (cache.place name entry) := by
  unfold Cache.placeAt? Cache.place
  cases kept : cache.entries? name with
  | none => rfl
  | some entries =>
    have known : (cache.touch name).entries? name = some entries := by rw [entries?_touch, kept]
    dsimp only
    cases found : (cache.touch name).position? name entry.type with
    | some position =>
      obtain ⟨old, -, there⟩ := entryAt?_of_position? found
      rw [find?_eq, known, Option.bind_some] at there
      have same : decide (old.type = entry.type) = true := by simpa using List.find?_some there
      have any : entries.any (·.type = entry.type) = true :=
        List.any_eq_true.mpr ⟨old, List.mem_of_find?_eq_some there, same⟩
      dsimp only
      rw [(shape.touch name).overwriteAt? found, replace_of_known known, putEntry, if_pos any]
    | none =>
      have none := find?_of_position?_eq_none found
      rw [find?_eq, known, Option.bind_some, List.find?_eq_none] at none
      have any : ¬entries.any (·.type = entry.type) = true := by
        rw [List.any_eq_true]
        rintro ⟨old, member, same⟩
        exact none old member same
      dsimp only
      rw [putEntry, if_neg any]

end WellFormed

/-! ## Accesses by positions -/

namespace Access

/-- What an `access` does to a `cache` if it goes by positions, unless there is no `entry` at
one. -/
def performAt? (cache : Cache) : Access → Option Cache
  | find name type now => (cache.liveAt? name type now).map Prod.snd
  | insert name entry => (cache.placeAt? name entry).map Cache.evict
  | replace name entry =>
    match cache.position? name entry.type with
    | some position => cache.overwriteAt? name position entry
    | none => some cache
  | remove name type =>
    match cache.position? name type with
    | some position => cache.removeAt? name position
    | none => some cache
  | access => some (access.perform cache)

/-- An `access` that goes by positions does the same, and there is an entry at each of them. -/
theorem performAt?_eq (shape : cache.WellFormed) (access : Access) :
    access.performAt? cache = some (access.perform cache) := by
  -- Four accesses go by positions; for the others there is nothing to be shown.
  cases access with
  | find name type now =>
    rw [performAt?, shape.liveAt? name type now]
    rfl
  | insert name entry =>
    rw [performAt?, shape.placeAt? name entry]
    rfl
  | replace name entry =>
    rw [performAt?]
    cases found : cache.position? name entry.type with
    | some position => exact shape.overwriteAt? found
    -- Without a position there is no entry for the type, and nothing to replace.
    | none =>
      exact congrArg some (shape.replace_eq_self (find?_of_position?_eq_none found)).symm
  | remove name type =>
    rw [performAt?]
    cases found : cache.position? name type with
    | some position => exact shape.removeAt? found
    | none => exact congrArg some (shape.remove_eq_self (find?_of_position?_eq_none found)).symm
  | _ => rfl

/-- So `accesses` one after the other can all go by positions. -/
theorem foldlM_performAt? (shape : cache.WellFormed) (accesses : List Access) :
    accesses.foldlM performAt? cache = some (performAll cache accesses) := by
  induction accesses generalizing cache with
  | nil => rfl
  | cons access accesses ih =>
    rw [List.foldlM_cons, performAt?_eq shape access]
    exact ih (wellFormed_perform shape access)

end Access

end Cache

end NameResolution
