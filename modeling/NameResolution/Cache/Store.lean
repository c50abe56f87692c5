import NameResolution.Cache.Entry
import NameResolution.Cache.Settings

/-!
# The store of a cache

A `Cache` keeps entries by name and type. The names are in the order of recent use; once there are
more of them than allowed, the ones that were not used for the longest time go, with all their
entries. Entries that have expired stay until they are met.

* `Cache.find?`: the entry for a name and type, whether it still counts or not.
* `Cache.live`: the entry that still counts. It uses the name and drops what has expired.
* `Cache.insert`, `Cache.replace`, `Cache.remove`, `Cache.evict`: changing the store.
-/

namespace NameResolution

/-- What is known about names: the most recently used name first, each with its entries, at most
one of a type. Names are kept folded. -/
structure Cache where
  names : List (Name × List Entry)
  settings : CacheSettings

namespace Cache

/-- A `Cache` that knows nothing. -/
def empty (settings : CacheSettings) : Cache := ⟨[], settings⟩

/-- How many names are kept, whether their entries still count or not. -/
def size (cache : Cache) : Nat := cache.names.length

/-- Whether nothing is kept. -/
def isEmpty (cache : Cache) : Bool := cache.names.isEmpty

/-- The entries of a `name`. -/
def entries? (cache : Cache) (name : Name) : Option (List Entry) :=
  let key := name.fold
  (cache.names.find? (·.1 = key)).map Prod.snd

/-- The names that are kept other than `name`, with their entries. -/
def others (cache : Cache) (name : Name) : List (Name × List Entry) :=
  let key := name.fold
  cache.names.filter (·.1 ≠ key)

/-- The `Entry` for a `name` and `type`. -/
def find? (cache : Cache) (name : Name) (type : RecordType) : Option Entry :=
  (cache.entries? name).bind fun entries => entries.find? (·.type = type)

/-- Makes a `name` the most recently used one. -/
def touch (cache : Cache) (name : Name) : Cache :=
  match cache.entries? name with
  | some entries => { cache with names := (name.fold, entries) :: cache.others name }
  | none => cache

/-- Gives a `name` that is kept other `entries` in place; without entries the name goes. -/
def setEntries (cache : Cache) (name : Name) (entries : List Entry) : Cache :=
  if entries.isEmpty then { cache with names := cache.others name }
  else
    let key := name.fold
    { cache with
      names := cache.names.map fun item => if item.1 = key then (key, entries) else item }

/-- Removes a `name` with all its entries. -/
def removeName (cache : Cache) (name : Name) : Cache := { cache with names := cache.others name }

/-- Removes the entry for a `name` and `type`. -/
def remove (cache : Cache) (name : Name) (type : RecordType) : Cache :=
  match cache.entries? name with
  | some entries => cache.setEntries name (entries.filter (·.type ≠ type))
  | none => cache

/-- Puts an `entry` in the place of the one of the same type. -/
def replace (cache : Cache) (name : Name) (entry : Entry) : Cache :=
  match cache.entries? name with
  | some entries =>
    cache.setEntries name (entries.map fun old => if old.type = entry.type then entry else old)
  | none => cache

/-- Drops the names that were not used for the longest time until `settings.maxNames` is kept. -/
def evict (cache : Cache) : Cache :=
  { cache with names := cache.names.take cache.settings.maxNames }

/-- Puts an `entry` among others, in the place of one of the same type. -/
def putEntry (entries : List Entry) (entry : Entry) : List Entry :=
  if entries.any (·.type = entry.type) then
    entries.map fun old => if old.type = entry.type then entry else old
  else entries ++ [entry]

/-- Puts in an `entry`, which makes its `name` the most recently used one, however many there
are. -/
def place (cache : Cache) (name : Name) (entry : Entry) : Cache :=
  match cache.entries? name with
  | some entries => (cache.touch name).setEntries name (putEntry entries entry)
  | none => { cache with names := (name.fold, [entry]) :: cache.names }

/-- Keeps an `entry`. Names that are then beyond the limit go. -/
def insert (cache : Cache) (name : Name) (entry : Entry) : Cache := (cache.place name entry).evict

/-- Removes everything. -/
def clear (cache : Cache) : Cache := { cache with names := [] }

/-- The entry for a name and type that still counts at `now`. The name is used by this, and an
entry that has expired is dropped. -/
def live (name : Name) (type : RecordType) (now : Duration) : StateM Cache (Option Entry) := do
  let cache ← get
  match cache.find? name type with
  | some entry =>
    if entry.IsExpired now then
      set ((cache.touch name).remove name type)
      return none
    else
      set (cache.touch name)
      return some entry
  | none =>
    set (cache.touch name)
    return none

/-- Changes the settings by `change`; what is kept changes with the next use only. -/
def withSettings (cache : Cache) (change : CacheSettings → CacheSettings) : Cache :=
  { cache with settings := change cache.settings }

end Cache

end NameResolution
