import NameResolution.Proofs.Cache.Persistence
import NameResolution.Proofs.Cache.Views

/-!
# Tables that forget at once

A `Table` is what a cache would be without bookkeeping: it holds the entries of each name that
count, drops each of them at the very instant its life ends, knows no limit on names, and keeps no
account of their use.

* `Cache.alive`: the entries of a name that a cache would still use.
* `Cache.Change.revise`: what a change does to the entries of its name.
  `Cache.alive_apply_sweep`: it does the same to those that are alive.
* `Cache.Table.ask`: what an action does to a table, and what it results in.
-/

namespace NameResolution

namespace Cache

/-! ## Entries that are alive -/

/-- The entries of a `name` that still count, in the order they are kept in. -/
def alive (cache : Cache) (now : Duration) (name : Name) : List Entry :=
  ((cache.entries? name).getD []).filter (¬ ·.IsExpired now)

variable {cache : Cache} {now : Duration}

theorem alive_congr (cache : Cache) (now : Duration) {name other : Name}
    (same : name.fold = other.fold) : cache.alive now name = cache.alive now other := by
  rw [alive, entries?_congr cache same, alive]

theorem nodup_entries (shape : cache.WellFormed) (name : Name) :
    (((cache.entries? name).getD []).map Entry.type).Nodup := by
  cases kept : cache.entries? name with
  | none => simp
  | some entries => exact shape.nodup_types kept

theorem nodup_alive (shape : cache.WellFormed) (now : Duration) (name : Name) :
    ((cache.alive now name).map Entry.type).Nodup :=
  (nodup_entries shape name).sublist (List.filter_sublist.map _)

/-- The entry that counts for a `type` is the one of this type that is alive. -/
theorem find?_alive (shape : cache.WellFormed) (now : Duration) (name : Name)
    (type : RecordType) :
    (cache.alive now name).find? (·.type = type) = cache.current? name type now := by
  rw [alive, find?_filter_of_nodup Entry.type (nodup_entries shape name), current?, find?_eq]
  cases cache.entries? name <;> rfl

theorem mem_alive (shape : cache.WellFormed) {name : Name} {entry : Entry} :
    entry ∈ cache.alive now name ↔ cache.current? name entry.type now = some entry := by
  rw [← find?_alive shape]
  exact ⟨find?_eq_some_of_mem Entry.type (nodup_alive shape now name), List.mem_of_find?_eq_some⟩

theorem not_expired_of_mem_alive {name : Name} {entry : Entry}
    (member : entry ∈ cache.alive now name) : ¬ entry.IsExpired now := by
  simpa using (List.mem_filter.1 member).2

theorem alive_touch (cache : Cache) (now : Duration) (name other : Name) :
    (cache.touch name).alive now other = cache.alive now other := by
  rw [alive, entries?_touch, alive]

theorem alive_removeName (cache : Cache) (now : Duration) (name other : Name) :
    (cache.removeName name).alive now other =
      if other.fold = name.fold then [] else cache.alive now other := by
  rw [alive, entries?_removeName]
  split <;> rfl

theorem alive_setEntries {name : Name} (kept : (cache.entries? name).isSome)
    (entries : List Entry) (other : Name) :
    (cache.setEntries name entries).alive now other =
      if other.fold = name.fold then entries.filter (¬ ·.IsExpired now)
      else cache.alive now other := by
  rw [alive, entries?_setEntries]
  by_cases same : other.fold = name.fold
  · rw [if_pos same, if_pos same]
    cases entries with
    | nil => rfl
    | cons first rest =>
      obtain ⟨before, kept⟩ := Option.isSome_iff_exists.1 kept
      rw [kept]
      rfl
  · rw [if_neg same, if_neg same, alive]

theorem alive_remove (cache : Cache) (now : Duration) (name : Name) (type : RecordType)
    (other : Name) :
    (cache.remove name type).alive now other =
      if other.fold = name.fold then (cache.alive now name).filter (·.type ≠ type)
      else cache.alive now other := by
  unfold remove
  cases kept : cache.entries? name with
  | none =>
    dsimp only
    split
    · rename_i same
      rw [alive_congr cache now same, alive, kept]
      rfl
    · rfl
  | some entries =>
    simp only [alive_setEntries (kept ▸ rfl : (cache.entries? name).isSome)]
    split
    · rw [alive, kept, Option.getD_some, List.filter_filter, List.filter_filter]
      exact List.filter_congr fun entry _ => Bool.and_comm _ _
    · rfl

theorem alive_replace (cache : Cache) (now : Duration) (name : Name) (entry : Entry)
    (other : Name) :
    (cache.replace name entry).alive now other =
      if other.fold = name.fold then
        (((cache.entries? name).getD []).map fun old =>
          if old.type = entry.type then entry else old).filter (¬ ·.IsExpired now)
      else cache.alive now other := by
  cases kept : cache.entries? name with
  | none =>
    rw [replace_of_unknown kept]
    split
    · rename_i same
      rw [alive_congr cache now same, alive, kept]
      rfl
    · rfl
  | some entries =>
    rw [replace_of_known kept, alive_setEntries (kept ▸ rfl), Option.getD_some]

/-- Only entries of names in the `excess` go when names are dropped. -/
theorem alive_evict (shape : cache.WellFormed)
    (within : ∀ name, cache.alive now name ≠ [] → name.fold ∉ cache.excess) (name : Name) :
    cache.evict.alive now name = cache.alive now name := by
  by_cases beyond : name.fold ∈ cache.excess
  · have none : cache.alive now name = [] := not_not.1 fun some => within name some beyond
    rw [none, alive, shape.entries?_evict_eq_none beyond]
    rfl
  · rw [alive, entries?_evict cache beyond, alive]

/-! ## Reading -/

/-- All entries that are `alive` stay so. -/
def Spares (now : Duration) (before after : Cache) : Prop :=
  before.WellFormed → after.WellFormed ∧ ∀ name, after.alive now name = before.alive now name

instance (now : Duration) : Std.Refl (Spares now) := ⟨fun _ shape => ⟨shape, fun _ => rfl⟩⟩

instance (now : Duration) : Trans (Spares now) (Spares now) (Spares now) where
  trans first second := fun shape =>
    have ⟨middle, same⟩ := first shape
    have ⟨last, same'⟩ := second middle
    ⟨last, fun name => (same' name).trans (same name)⟩

theorem alive_sweep (shape : cache.WellFormed) (name : Name) (type : RecordType) (now : Duration)
    (other : Name) : (cache.sweep name type now).alive now other = cache.alive now other := by
  obtain ⟨swept, -⟩ | ⟨swept, entry, found, expired⟩ := cache.sweep_eq name type now
  · rw [swept, alive_touch]
  · rw [swept, alive_remove, alive_touch, alive_touch]
    split
    · rename_i same
      have none : (cache.alive now name).find? (·.type = type) = none := by
        rw [find?_alive shape, current?, found]
        simp [Option.filter, expired]
      rw [alive_congr cache now same]
      exact List.filter_eq_self.2 fun entry member => by
        simpa using List.find?_eq_none.1 none entry member
    · rfl

theorem spares_reading (request : Request) : KeptByReading request (Spares request.now) where
  live name type cache shape :=
    ⟨shape.sweep name type request.now, alive_sweep shape name type request.now⟩
  collect name cache shape := by
    refine ⟨(sheds_collect request name cache shape).wellFormed, fun other => ?_⟩
    have collected : (collect request name cache).2 =
        (cache.touch name).setEntries name (cache.alive request.now name) := rfl
    rw [collected]
    cases kept : cache.entries? name with
    | none =>
      rw [alive, entries?_setEntries, entries?_touch, kept, Option.map_none, ite_self]
      split
      · rename_i same
        rw [alive_congr cache request.now same, alive, kept]
      · rw [entries?_touch, alive]
    -- What has expired is not alive, so dropping it leaves the same entries.
    | some entries =>
      rw [alive_setEntries (by rw [entries?_touch, kept]; rfl), alive_touch]
      split
      · rename_i same
        rw [alive_congr cache request.now same]
        exact List.filter_eq_self.2 fun entry member =>
          decide_eq_true (not_expired_of_mem_alive member)
      · rfl

/-! ## Writing -/

/-- What a `Change` does to the `entries` of its name. -/
def Change.revise (type : RecordType) : Change → List Entry → List Entry
  | keep, entries => entries
  | remove, entries => entries.filter (·.type ≠ type)
  | replace entry, entries => entries.map fun old => if old.type = entry.type then entry else old
  | insert entry, entries => putEntry entries entry

/-- The `Change` puts nothing in the place of the `entry` for a `type` but another one for it. -/
def Change.IsFor (type : RecordType) : Change → Prop
  | keep | remove => True
  | replace entry | insert entry => entry.type = type

theorem filter_map_filter {α : Type} (p : α → Bool) (f : α → α) {items : List α}
    (stays : ∀ item ∈ items, p (f item) = true → p item = true) :
    (items.map f).filter p = ((items.filter p).map f).filter p := by
  induction items with
  | nil => rfl
  | cons first items ih =>
    have rest := ih fun item member => stays item (List.mem_cons_of_mem _ member)
    cases counts : p first with
    | true => rw [List.filter_cons_of_pos counts, List.map_cons, List.map_cons, List.filter_cons,
        List.filter_cons, rest]
    | false =>
      have gone : ¬ p (f first) = true := fun still => by
        simp [stays first List.mem_cons_self still] at counts
      rw [List.filter_cons_of_neg (by simp [counts]), List.map_cons, List.filter_cons_of_neg gone,
        rest]

/-- Entries that no longer count make no difference to a `change`, except for one that would lend
its place to an `entry` that does. -/
theorem filter_revise {entries : List Entry} {type : RecordType} {change : Change}
    (own : change.IsFor type)
    (fresh : ∀ entry ∈ entries, entry.type = type → ¬ entry.IsExpired now) :
    (change.revise type entries).filter (¬ ·.IsExpired now) =
      (change.revise type (entries.filter (¬ ·.IsExpired now))).filter (¬ ·.IsExpired now) := by
  have replaces (entry : Entry) (own : entry.type = type) :=
    filter_map_filter (fun entry => decide ¬ entry.IsExpired now)
      (fun old => if old.type = entry.type then entry else old) fun old (member : old ∈ entries) =>
        fun counts => by
          by_cases same : old.type = entry.type
          · simpa using fresh old member (same.trans own)
          · simpa [same] using counts
  cases change with
  | keep => simp [Change.revise]
  | remove =>
    simp only [Change.revise, List.filter_filter]
    exact List.filter_congr fun entry _ => by
      cases decide ¬ entry.IsExpired now <;> simp
  | replace entry => exact replaces entry own
  | insert entry =>
    -- An entry that has expired would lend its place, but none of this type has.
    have known : entries.any (·.type = entry.type) =
        (entries.filter (¬ ·.IsExpired now)).any (·.type = entry.type) := by
      rw [Bool.eq_iff_iff, List.any_eq_true, List.any_eq_true]
      refine ⟨fun ⟨old, member, same⟩ => ⟨old, List.mem_filter.2 ⟨member, ?_⟩, same⟩,
        fun ⟨old, member, same⟩ => ⟨old, List.mem_of_mem_filter member, same⟩⟩
      simpa using fresh old member ((of_decide_eq_true same).trans own)
    simp only [Change.revise, putEntry, ← known]
    split
    · exact replaces entry own
    · rw [List.filter_append, List.filter_append, List.filter_filter]
      simp

/-- A `change` after using its `name` does to the entries that are alive what it does to all
entries, unless names are dropped. -/
theorem alive_apply_sweep (shape : cache.WellFormed) (name : Name) (type : RecordType)
    {change : Change} (own : change.IsFor type)
    (within : ∀ entry, change = .insert entry →
      ∀ other : Name, other.fold ∉ ((cache.sweep name type now).place name entry).excess)
    (other : Name) :
    (change.apply name type (cache.sweep name type now)).alive now other =
      if other.fold = name.fold then
        (change.revise type (cache.alive now name)).filter (¬ ·.IsExpired now)
      else cache.alive now other := by
  have shape' := shape.sweep name type now
  have swept := alive_sweep shape name type now
  have settled (name : Name) : (cache.alive now name).filter (¬ ·.IsExpired now) =
      cache.alive now name :=
    List.filter_eq_self.2 fun entry member => decide_eq_true (not_expired_of_mem_alive member)
  -- The sweep has dropped the entry of the type if it had expired.
  have fresh : ∀ entry ∈ ((cache.sweep name type now).entries? name).getD [],
      entry.type = type → ¬ entry.IsExpired now := by
    intro entry member kind
    have found := find?_eq_some_of_mem Entry.type (nodup_entries shape' name) member
    have current := find?_sweep cache name type now name type
    rw [if_pos ⟨rfl, rfl⟩, find?_eq] at current
    cases kept : (cache.sweep name type now).entries? name with
    | none => simp [kept] at member
    | some entries =>
      rw [kept, Option.getD_some, kind] at found
      rw [kept, Option.bind_some, found] at current
      exact (current?_eq_some.1 current.symm).2
  cases change with
  | keep =>
    rw [Change.apply, swept, Change.revise, settled]
    split
    · exact alive_congr cache now ‹_›
    · rfl
  | remove =>
    rw [Change.apply, alive_remove, swept, swept, Change.revise, List.filter_filter]
    split
    · refine List.filter_congr fun entry member => ?_
      simp [not_expired_of_mem_alive member]
    · rfl
  | replace entry =>
    rw [Change.apply, alive_replace, swept, ← swept name]
    exact if_congr Iff.rfl (filter_revise own fresh) rfl
  | insert entry =>
    have placed : ((cache.sweep name type now).place name entry).evict.alive now other =
        ((cache.sweep name type now).place name entry).alive now other :=
      alive_evict (shape'.place name entry) (fun other _ => within entry rfl other) other
    rw [Change.apply, insert, placed, alive, entries?_place]
    split
    · rw [Option.getD_some, ← swept name, alive]
      exact filter_revise own fresh
    · rw [← swept other, alive]

/-! ## Tables -/

/-- The entries of each name that are `alive`, and the settings. -/
structure Table where
  entries : Name → List Entry
  settings : CacheSettings

namespace Table

/-- The `Entry` for a `name` and `type`. -/
def get? (table : Table) (name : Name) (type : RecordType) : Option Entry :=
  (table.entries name).find? (·.type = type)

/-- The `table` without the entries whose life has ended. -/
def expire (now : Duration) (table : Table) : Table :=
  { table with entries := fun name => (table.entries name).filter (¬ ·.IsExpired now) }

/-- The `table` with other entries for a `name`. -/
def revise (table : Table) (name : Name) (change : List Entry → List Entry) : Table where
  entries other := if other.fold = name.fold then change (table.entries name)
    else table.entries other
  settings := table.settings

/-- The `table` with other settings. -/
def withSettings (table : Table) (change : CacheSettings → CacheSettings) : Table :=
  { table with settings := change table.settings }

/-- Performs a `write`. What would end at once is not kept. -/
def perform (now : Duration) (write : Write) : Op Table Unit := do
  match write.refusal? with
  | some misuse => throw misuse
  | none =>
    let table ← get
    let verdict := write.verdict (table.get? write.name write.type) now table.settings
    set ((table.revise write.name (verdict.2.revise write.type)).expire now)
    Op.ofExcept verdict.1

/-- Performs `writes`, one after the other, until one is refused. -/
def performAll (now : Duration) : List Write → Op Table Unit
  | [] => return
  | write :: writes => do
    perform now write
    performAll now writes

/-- What a place shows to a `request`. -/
def view (table : Table) (request : Request) (reading : Reading) : Option Lookup :=
  ((table.get? reading.name reading.type).filter (request.least ≤ ·.credibility)).bind
    (reading.aspect.shows <| ·.findingAt request.now)

/-- The data that is asked for, or else an alias of the `name`. -/
def exact (table : Table) (request : Request) (name : Name) : Option Lookup :=
  if request.type = .any then
    let sets := ((table.entries name).filter (request.least ≤ ·.credibility)).filterMap
      (·.setAt? request.now)
    if sets.isEmpty then none else some (.successful sets)
  else (table.view request ⟨name, request.type, .answer⟩).or
    (table.view request ⟨name, .cname, .cname⟩)

/-- What is known about a `name`: the data that is asked for or an alias of the name, or else what
the first of the other places shows. -/
def consult (name : Name) (type : RecordType) (least : Credibility) (now : Duration) :
    Op Table Lookup := do
  if name.absolute then
    let table ← get
    let request : Request := ⟨type, least, now⟩
    return ((table.exact request name).or
      ((readingsPast name.suffixes).findSome? (table.view request))).getD .unknown
  else throw (.relativeInCache name)

end Table

/-! ## Results of actions -/

/-- What an `Action` results in. -/
inductive Report
  | done
  | found (lookup : Lookup)
  | records (sets : Option (List RecordSet))

/-- What an `action` does to a `Cache`, with its result. -/
def Action.ask (now : Duration) : Action → Op Cache Report
  | addMessage message => .found <$> Cache.addMessage message now
  | lookup name type least => .found <$> Cache.lookup name type least now
  | findRecords name type => .records <$> Cache.findRecords name type now
  | action => (fun _ => .done) <$> action.operate now

/-- Whether its result is told or not, an `action` leaves the same `cache`. -/
theorem Action.ask_snd (action : Action) (now : Duration) (cache : Cache) :
    (action.ask now cache).2 = (action.operate now cache).2 := by
  cases action <;> simp only [ask, operate, bind_pure_comp, Op.map_apply]

/-- What an `Action` does to a `Table`, with its result. When the clock moves on, whatever has ended
by then goes. -/
def Table.ask (now : Duration) : Action → Op Table Report
  | .addRecord record credibility => done <$> perform now (.ofRecord record credibility)
  | .addSet set credibility => done <$> perform now (.ofSet set credibility)
  | .addNegative name type soa credibility => do
    let ttl ← Op.ofExcept (absenceTtl soa)
    done <$> perform now (.ofAbsence name type ttl credibility)
  | .addMessage message =>
    (fun _ => .found (meaningOf message)) <$> performAll now (writesOf message)
  | .lookup name type least => .found <$> consult name type least now
  | .findRecords name type => (fun found => .records found.answers?) <$>
    consult name type .normal now
  | .flushName name => done <$> modify (·.revise name fun _ => [])
  | .flushSet name type => done <$> modify (·.revise name (·.filter (·.type ≠ type)))
  | .clear => done <$> modify fun table => { table with entries := fun _ => [] }
  | .setMaxNames value => done <$> modify (·.withSettings (·.setMaxNames value))
  | .setMaxLife value => done <$> modify (·.withSettings (·.setMaxLife value))
  | .setMaxNegativeLife value => done <$> modify (·.withSettings (·.setMaxNegativeLife value))
  | .advance span => done <$> modify (·.expire (now.saturatingAdd span))
where
  /-- There is nothing to tell, so the `Report` is `done`. -/
  done : Unit → Report := fun _ => .done

/-- The results of some `actions`, from a time on. -/
def Table.outcomes (table : Table) (now : Duration) : List Action → List (Except Misuse Report)
  | [] => []
  | action :: actions => (ask now action table).1 ::
      (ask now action table).2.outcomes (now.saturatingAdd action.span) actions

/-- The `table` after some `actions`, from a time on. -/
def Table.run (table : Table) (now : Duration) : List Action → Table
  | [] => table
  | action :: actions => (ask now action table).2.run (now.saturatingAdd action.span) actions

/-- The results of some `actions`. -/
def Scene.outcomes (scene : Scene) : List Action → List (Except Misuse Report)
  | [] => []
  | action :: actions => (action.ask scene.now scene.cache).1 ::
      (scene.after action).outcomes actions

end Cache

end NameResolution
