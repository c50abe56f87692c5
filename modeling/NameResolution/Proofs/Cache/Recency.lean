import NameResolution.Proofs.Cache.Accesses
import NameResolution.Proofs.Names

/-!
# The least recently used names go

The names in the store of a cache are in the order of their last use. Every access keeps them so:
one that uses a name moves this name to the front, and no access changes the order of the others. So
the names beyond the limit are the ones that were not used for the longest time.

* `Cache.Watched`: a cache with an account of the names that were used.
* `Cache.RecentFirst`: names are in the order of their last use.
  `Cache.Access.recentFirst_perform`: they stay so. `Cache.Watched.recentFirst_run`: they are so in
  every run.
* `Cache.RecentFirst.of_evict`: names that are dropped were used before all that are kept.
* `Cache.Scene.evicts_least_recent`: what the limit does in every run of a cache.
-/

namespace NameResolution

namespace Cache

/-! ## Names in order -/

/-- The names that are kept, the most recently used one first. -/
def keys (cache : Cache) : List Name := cache.names.map Prod.fst

/-- The `older` name was last used before the `newer` one, if the names that were used are listed
from the last one on. -/
structure UsedBefore (uses : List Name) (older newer : Name) : Prop where
  used : older ∈ uses
  since : newer ∈ uses.takeWhile (· ≠ older)

/-- The `keys` are in the order of their last use. -/
structure RecentFirst (uses keys : List Name) : Prop where
  used : ∀ key ∈ keys, key ∈ uses
  order : keys.Pairwise fun newer older => UsedBefore uses older newer

namespace RecentFirst

variable {uses keys next : List Name} {name : Name}

theorem sublist (order : RecentFirst uses keys) (fewer : next.Sublist keys) :
    RecentFirst uses next :=
  ⟨fun key member => order.used key (fewer.subset member), order.order.sublist fewer⟩

/-- A `name` that is used goes to the front, and the others stay in order. -/
theorem use (order : RecentFirst uses keys) (name : Name) :
    RecentFirst (name :: uses) (name :: keys.filter (· ≠ name)) := by
  have ahead {older newer : Name} (other : older ≠ name)
      (before : newer = name ∨ UsedBefore uses older newer) (known : older ∈ uses) :
      UsedBefore (name :: uses) older newer := by
    refine ⟨List.mem_cons_of_mem name known, ?_⟩
    rw [List.takeWhile_cons_of_pos (by simpa using other.symm), List.mem_cons]
    exact before.imp_right UsedBefore.since
  refine ⟨fun key member => ?_, List.pairwise_cons.mpr ⟨fun key member => ?_, ?_⟩⟩
  · obtain rfl | rest := List.mem_cons.mp member
    · exact List.mem_cons_self
    · exact List.mem_cons_of_mem name (order.used key (List.mem_of_mem_filter rest))
  · obtain ⟨among, other⟩ := List.mem_filter.mp member
    exact ahead (by simpa using other) (.inl rfl) (order.used key among)
  · refine (order.order.sublist List.filter_sublist).imp_of_mem ?_
    intro newer older _ member before
    obtain ⟨among, other⟩ := List.mem_filter.mp member
    exact ahead (by simpa using other) (.inr before) (order.used older among)

end RecentFirst

/-! ## The names after an access -/

section

variable (cache : Cache) (name : Name)

theorem keys_others : (cache.others name).map Prod.fst = cache.keys.filter (· ≠ name.fold) := by
  unfold others keys
  rw [List.filter_map]
  rfl

theorem keys_setEntries (entries : List Entry) :
    (cache.setEntries name entries).keys.Sublist cache.keys := by
  unfold setEntries
  split
  · exact List.filter_sublist.map _
  · have key (item : Name × List Entry) :
        (if item.1 = name.fold then (name.fold, entries) else item).1 = item.1 := by
      split
      · rename_i same
        exact same.symm
      · rfl
    simp only [keys, List.map_map, Function.comp_def, key]
    exact List.Sublist.refl _

theorem keys_remove (type : RecordType) : (cache.remove name type).keys.Sublist cache.keys := by
  unfold remove
  split
  · exact keys_setEntries cache name _
  · exact List.Sublist.refl _

theorem keys_replace (entry : Entry) : (cache.replace name entry).keys.Sublist cache.keys := by
  unfold replace
  split
  · exact keys_setEntries cache name _
  · exact List.Sublist.refl _

theorem keys_evict : cache.evict.keys.Sublist cache.keys :=
  (List.take_sublist _ _).map _

variable {cache name} {uses : List Name}

theorem RecentFirst.touch (order : RecentFirst uses cache.keys) : RecentFirst
    ((if (cache.entries? name).isSome then some name.fold else none).toList ++ uses)
    (cache.touch name).keys := by
  unfold Cache.touch
  cases cache.entries? name with
  | none => exact order
  | some entries =>
    have front := order.use name.fold
    rwa [← keys_others] at front

theorem RecentFirst.place (order : RecentFirst uses cache.keys) (entry : Entry) :
    RecentFirst (name.fold :: uses) (cache.place name entry).keys := by
  unfold Cache.place
  cases kept : cache.entries? name with
  | none =>
    have absent : ∀ key ∈ cache.keys, key ≠ name.fold := by
      rintro key member rfl
      obtain ⟨item, among, same⟩ := List.mem_map.mp member
      rw [entries?_eq, Option.map_eq_none_iff, List.find?_eq_none] at kept
      exact kept item among (decide_eq_true same)
    have front := order.use name.fold
    rwa [List.filter_eq_self.mpr (by simpa using absent)] at front
  | some entries =>
    have front : RecentFirst _ (cache.touch name).keys := order.touch
    rw [kept] at front
    exact front.sublist (keys_setEntries _ name _)

end

/-- Every `access` keeps the names in the order of their last use. -/
theorem Access.recentFirst_perform {cache : Cache} {uses : List Name}
    (order : RecentFirst uses cache.keys) (access : Access) :
    RecentFirst ((access.used? cache).toList ++ uses) (access.perform cache).keys := by
  cases access with
  | find name type now =>
    obtain ⟨swept, -⟩ | ⟨swept, -⟩ := cache.sweep_eq name type now
    all_goals
      show RecentFirst _ (cache.sweep name type now).keys
      rw [swept]
    · exact order.touch
    · exact order.touch.sublist (keys_remove _ name type)
  | collect name request => exact order.touch.sublist (keys_setEntries _ name _)
  | insert name entry => exact (order.place entry).sublist (keys_evict _)
  | replace name entry => exact order.sublist (keys_replace cache name entry)
  | remove name type => exact order.sublist (keys_remove cache name type)
  | removeName name => exact order.sublist (List.filter_sublist.map _)
  | evict => exact order.sublist (keys_evict cache)
  | clear => exact order.sublist (List.nil_sublist _)
  | configure settings => exact order

/-! ## The limit -/

/-- Of the names that the limit drops each was last used before each one that is kept, whose
`entries` stay the same. -/
theorem RecentFirst.of_evict {cache : Cache} {uses : List Name}
    (order : RecentFirst uses cache.keys) {dropped kept : Name} {entries : List Entry}
    (known : (cache.entries? dropped).isSome) (gone : cache.evict.entries? dropped = none)
    (stays : cache.evict.entries? kept = some entries) :
    cache.entries? kept = some entries ∧ UsedBefore uses dropped.fold kept.fold := by
  refine ⟨entries?_evict_eq_some cache stays, ?_⟩
  have beyond : dropped.fold ∈ cache.excess := by
    refine Classical.byContradiction fun within => ?_
    rw [entries?_evict cache within] at gone
    rw [gone] at known
    cases known
  have within : kept.fold ∈ (cache.names.take cache.settings.maxNames).map Prod.fst :=
    List.mem_map_of_mem (f := Prod.fst) (mem_of_entries? stays)
  have ordered := order.order
  rw [keys, ← List.take_append_drop cache.settings.maxNames cache.names, List.map_append,
    List.pairwise_append] at ordered
  exact ordered.2.2 kept.fold within dropped.fold beyond

namespace Access

/-- The `cache` whose names beyond the limit are dropped by an `Access`, if the access does so. -/
def crowded? (cache : Cache) : Access → Option Cache
  | insert name entry => some (cache.place name entry)
  | evict => some cache
  | _ => none

/-- The `Access` sees to the limit. -/
def Limits : Access → Prop
  | insert .. | evict => True
  | _ => False

/-- The `Access` changes no settings. -/
def Steady : Access → Prop
  | configure _ => False
  | _ => True

/-- The `Access` only looks for entries, or sees to the limit. -/
def ReadsOnly : Access → Prop
  | find .. | collect .. | evict => True
  | _ => False

/-- The `Access` leaves room for a name. -/
def Proper : Access → Prop
  | configure settings => 0 < settings.maxNames
  | _ => True

theorem steady_or_configure (access : Access) :
    access.Steady ∨ ∃ settings, access = .configure settings := by
  cases access with
  | configure settings => exact .inr ⟨settings, rfl⟩
  | _ => exact .inl trivial

theorem Steady.proper {access : Access} (steady : access.Steady) : access.Proper := by
  cases access <;> trivial

theorem ReadsOnly.steady {access : Access} (reads : access.ReadsOnly) : access.Steady := by
  cases access with
  | configure settings => cases reads
  | _ => trivial

variable {cache crowded : Cache} {access : Access}

theorem perform_of_crowded (fills : access.crowded? cache = some crowded) :
    access.perform cache = crowded.evict := by
  cases access <;> cases fills <;> rfl

/-- Before the limit is seen to, the names of the `crowded` cache are in the order of their last use
as well. -/
theorem recentFirst_crowded {uses : List Name} (order : RecentFirst uses cache.keys)
    (fills : access.crowded? cache = some crowded) :
    RecentFirst ((access.used? cache).toList ++ uses) crowded.keys := by
  cases access with
  | insert name entry =>
    obtain rfl := Option.some.inj fills
    exact order.place entry
  | evict =>
    obtain rfl := Option.some.inj fills
    exact order
  | _ => cases fills

theorem settings_perform (steady : access.Steady) :
    (access.perform cache).settings = cache.settings := by
  cases access with
  | find name type now => exact settings_sweep cache name type now
  | collect name request => exact (settings_setEntries _ name _).trans (settings_touch cache name)
  | insert name entry => exact settings_place cache name entry
  | replace name entry => exact settings_replace cache name entry
  | remove name type => exact settings_remove cache name type
  | configure settings => cases steady
  | _ => rfl

/-- After an `access` that sees to the limit it is kept, and no other access adds a name. -/
theorem size_perform (steady : access.Steady)
    (room : access.Limits ∨ cache.size ≤ cache.settings.maxNames) :
    (access.perform cache).size ≤ cache.settings.maxNames := by
  cases access with
  | insert name entry =>
    have most : (cache.place name entry).evict.size ≤ (cache.place name entry).settings.maxNames :=
      List.length_take_le _ _
    rwa [settings_place] at most
  | evict => exact List.length_take_le _ _
  | configure settings => cases steady
  | find name type now =>
    exact Nat.le_trans (size_sweep_le cache name type now) (room.resolve_left id)
  | collect name request =>
    exact Nat.le_trans (Nat.le_trans (size_setEntries_le _ name _) (size_touch_le cache name))
      (room.resolve_left id)
  | replace name entry =>
    exact Nat.le_trans (size_replace_le cache name entry) (room.resolve_left id)
  | remove name type =>
    exact Nat.le_trans (size_remove_le cache name type) (room.resolve_left id)
  | removeName name => exact Nat.le_trans (List.length_filter_le _ _) (room.resolve_left id)
  | clear => exact Nat.zero_le _

/-- So the limit `maxNames` is kept from then on. -/
theorem size_performAll {accesses : List Access} (steady : ∀ access ∈ accesses, access.Steady)
    {cache : Cache} (room : (∃ access ∈ accesses, access.Limits) ∨
      cache.size ≤ cache.settings.maxNames) :
    (performAll cache accesses).size ≤ (performAll cache accesses).settings.maxNames := by
  induction accesses generalizing cache with
  | nil => exact room.resolve_left fun ⟨_, member, _⟩ => nomatch member
  | cons access accesses ih =>
    rw [List.forall_mem_cons] at steady
    refine ih steady.2 ?_
    rw [settings_perform steady.1]
    obtain ⟨limiting, member, limits⟩ | room := room
    · obtain rfl | later := List.mem_cons.mp member
      · exact .inr (size_perform steady.1 (.inl limits))
      · exact .inl ⟨limiting, later, limits⟩
    · exact .inr (size_perform steady.1 (.inr room))

theorem wellFormed_perform (shape : cache.WellFormed) (access : Access) :
    (access.perform cache).WellFormed := by
  cases access with
  | find name type now => exact shape.sweep name type now
  | collect name request => exact (sheds_collect request name cache shape).wellFormed
  | insert name entry => exact shape.insert name entry
  | replace name entry => exact shape.replace name entry
  | remove name type => exact shape.remove name type
  | removeName name => exact shape.removeName name
  | evict => exact shape.evict
  | clear => exact .clear cache
  | configure settings => exact ⟨shape.folded, shape.distinct, shape.filled, shape.types⟩

theorem wellFormed_performAll (shape : cache.WellFormed) (accesses : List Access) :
    (performAll cache accesses).WellFormed :=
  List.foldlRecOn accesses perform shape fun _ shape access _ => wellFormed_perform shape access

/-- There is always `room` for at least one name. -/
theorem room_performAll {accesses : List Access} (proper : ∀ access ∈ accesses, access.Proper)
    (room : 0 < cache.settings.maxNames) : 0 < (performAll cache accesses).settings.maxNames := by
  refine List.foldlRecOn (motive := fun cache => 0 < cache.settings.maxNames) accesses perform room
    fun cache room access member => ?_
  obtain steady | ⟨settings, rfl⟩ := access.steady_or_configure
  · rwa [settings_perform steady]
  · exact proper _ member

end Access

/-! ## The accesses of actions -/

open Access (Limits Proper ReadsOnly Steady)

theorem readsOnly_readAccesses (request : Request) (readings : List Reading) (cache : Cache) :
    ∀ access ∈ readAccesses request cache readings, access.ReadsOnly := by
  induction readings generalizing cache with
  | nil => exact List.forall_mem_nil _
  | cons reading readings ih =>
    unfold readAccesses
    split
    · exact List.forall_mem_singleton.mpr trivial
    · exact List.forall_mem_cons.mpr ⟨trivial, ih _⟩

theorem readsOnly_lookupAccesses (request : Request) (name : Name) (cache : Cache) :
    ∀ access ∈ lookupAccesses request name cache, access.ReadsOnly := by
  have exact : ∀ access ∈ exactAccesses request name cache.evict, access.ReadsOnly := by
    unfold exactAccesses
    split
    · exact List.forall_mem_singleton.mpr trivial
    · exact readsOnly_readAccesses request _ _
  unfold lookupAccesses
  split
  · refine List.forall_mem_cons.mpr ⟨trivial, List.forall_mem_append.mpr ⟨exact, ?_⟩⟩
    split
    · exact List.forall_mem_nil _
    · exact readsOnly_readAccesses request _ _
  · exact List.forall_mem_nil _

theorem steady_writesAccesses (now : Duration) (writes : List Write) (cache : Cache) :
    ∀ access ∈ writesAccesses now writes cache, access.Steady := by
  induction writes generalizing cache with
  | nil => exact List.forall_mem_nil _
  | cons write writes ih =>
    refine List.forall_mem_append.mpr ⟨?_, ?_⟩
    · unfold Write.accesses
      split
      · exact List.forall_mem_nil _
      · refine List.forall_mem_cons.mpr ⟨trivial, ?_⟩
        generalize (write.verdict _ now cache.settings).2 = change
        cases change with
        | keep => exact List.forall_mem_nil _
        | _ => exact List.forall_mem_singleton.mpr trivial
    · split
      · exact ih _
      · exact List.forall_mem_nil _

/-- An `action` changes no `settings`, or does nothing else and leaves room for a name. -/
theorem Action.steady_or_configures (action : Action) (now : Duration) (cache : Cache) :
    (∀ access ∈ action.accesses now cache, access.Steady) ∨ ∃ settings,
      action.accesses now cache = [.configure settings] ∧
        (0 < cache.settings.maxNames → 0 < settings.maxNames) := by
  have read (request : Request) (name : Name) :
      ∀ access ∈ lookupAccesses request name cache, access.Steady := fun access member =>
    (readsOnly_lookupAccesses request name cache access member).steady
  cases action with
  | lookup name type least => exact .inl (read _ name)
  | findRecords name type => exact .inl (read _ name)
  | flushName name => exact .inl (List.forall_mem_singleton.mpr trivial)
  | flushSet name type => exact .inl (List.forall_mem_singleton.mpr trivial)
  | clear => exact .inl (List.forall_mem_singleton.mpr trivial)
  | setMaxNames value => exact .inr ⟨_, rfl, fun _ => setMaxNames_pos cache.settings value⟩
  | setMaxLife value => exact .inr ⟨_, rfl, id⟩
  | setMaxNegativeLife value => exact .inr ⟨_, rfl, id⟩
  | _ => exact .inl (steady_writesAccesses now _ cache)

/-- Whatever happens to a `cache` leaves `room` for a name. -/
theorem Scene.proper_accesses {scene : Scene} (room : 0 < scene.cache.settings.maxNames)
    (actions : List Action) : ∀ access ∈ scene.accesses actions, access.Proper := by
  induction actions generalizing scene with
  | nil => exact List.forall_mem_nil _
  | cons action actions ih =>
    have proper : ∀ access ∈ action.accesses scene.now scene.cache, access.Proper := by
      obtain steady | ⟨settings, same, more⟩ :=
        action.steady_or_configures scene.now scene.cache
      · exact fun access member => (steady access member).proper
      · rw [same]
        exact List.forall_mem_singleton.mpr (more room)
    refine List.forall_mem_append.mpr ⟨proper, ih ?_⟩
    have stays := Access.room_performAll proper room
    rwa [← action.operate_accesses] at stays

/-- The `action` puts in an entry. -/
def Action.Inserts (action : Action) (scene : Scene) : Prop :=
  ∃ name entry, Access.insert name entry ∈ action.accesses scene.now scene.cache

/-- The `action` is a lookup that is not refused. -/
def Action.LooksUp (action : Action) (scene : Scene) : Prop :=
  (action.operate scene.now scene.cache).1 = .ok () ∧
    ((∃ name type least, action = .lookup name type least) ∨
      ∃ name type, action = .findRecords name type)

/-- After an `action` that puts in an entry and after a lookup, the limit is kept. -/
theorem Scene.size_after {scene : Scene} {action : Action}
    (sees : action.Inserts scene ∨ action.LooksUp scene) :
    (scene.after action).cache.size ≤ (scene.after action).cache.settings.maxNames := by
  -- A lookup that is not refused begins by seeing to the limit.
  have evicts {name : Name} {type : RecordType} {least : Credibility}
      (accepted : ∀ misuse, (lookup name type least scene.now scene.cache).1 ≠ .error misuse) :
      Access.evict ∈ lookupAccesses ⟨type, least, scene.now⟩ name scene.cache := by
    cases absolute : name.absolute with
    | false => exact absurd (congrArg Prod.fst (lookup_relative absolute ..)) (accepted _)
    | true =>
      rw [lookupAccesses, if_pos absolute]
      exact List.mem_cons_self
  have limits : ∃ access ∈ action.accesses scene.now scene.cache, access.Limits := by
    obtain ⟨name, entry, member⟩ | ⟨result, ⟨name, type, least, rfl⟩ | ⟨name, type, rfl⟩⟩ := sees
    · exact ⟨_, member, trivial⟩
    all_goals
      refine ⟨.evict, evicts fun misuse refused => ?_, trivial⟩
      simp only [Action.operate, findRecords, bind_pure_comp, Op.map_apply, refused] at result
      cases result
  obtain steady | ⟨settings, same, -⟩ := action.steady_or_configures scene.now scene.cache
  · have room : (∃ access ∈ action.accesses scene.now scene.cache, access.Limits) ∨
        scene.cache.size ≤ scene.cache.settings.maxNames := .inl limits
    have kept := Access.size_performAll steady room
    rwa [← action.operate_accesses] at kept
  · obtain ⟨access, member, sees⟩ := limits
    rw [same, List.mem_singleton] at member
    subst member
    cases sees

/-! ## Runs -/

/-- A `Cache` with the names that were used, the latest first. -/
structure Watched where
  cache : Cache
  uses : List Name

namespace Watched

/-- A `Watched` cache that knows nothing. -/
def start (settings : CacheSettings) : Watched := ⟨.empty settings, []⟩

/-- What becomes of a cache and its account by an `access`. -/
def after (watched : Watched) (access : Access) : Watched :=
  ⟨access.perform watched.cache, (access.used? watched.cache).toList ++ watched.uses⟩

/-- What becomes of them by some `accesses`. -/
def run (watched : Watched) (accesses : List Access) : Watched := accesses.foldl after watched

theorem cache_run (watched : Watched) (accesses : List Access) :
    (watched.run accesses).cache = Access.performAll watched.cache accesses := by
  induction accesses generalizing watched with
  | nil => rfl
  | cons access accesses ih => exact ih (watched.after access)

/-- In every `run` the names are in the order of their last use. -/
theorem recentFirst_run (settings : CacheSettings) (accesses : List Access) :
    RecentFirst ((start settings).run accesses).uses
      ((start settings).run accesses).cache.keys := by
  have step {watched : Watched} (order : RecentFirst watched.uses watched.cache.keys) :
      RecentFirst (watched.run accesses).uses (watched.run accesses).cache.keys := by
    induction accesses generalizing watched with
    | nil => exact order
    | cons access accesses ih => exact ih (access.recentFirst_perform order)
  exact step ⟨List.forall_mem_nil _, List.Pairwise.nil⟩

end Watched

/-- The size limit evicts exactly the least recently used names. Take any `run` of a cache that
starts empty with `room` for a name, and the `accesses` to its store that the run comes down to.
After an action that `Inserts` an entry, and after one that `LooksUp` a name, no more names are kept
than allowed. Whenever an access drops names beyond the limit (`crowded?`), an entry that it has
just put in is still there; each name that is dropped was last used before every name that is kept
(`UsedBefore`); and the entries of a name that is kept stay the same. A name is used when an entry
is put in for it, and when it is found as its entries are looked for. -/
theorem Scene.evicts_least_recent (settings : CacheSettings) (room : 0 < settings.maxNames)
    (actions : List Action) :
    ((Watched.start settings).run ((start settings).accesses actions)).cache =
      ((start settings).run actions).cache ∧
    (∀ before action after, actions = before ++ action :: after →
      action.Inserts ((start settings).run before) ∨ action.LooksUp ((start settings).run before) →
      (((start settings).run before).after action).cache.size ≤
        (((start settings).run before).after action).cache.settings.maxNames) ∧
    ∀ before access after, (start settings).accesses actions = before ++ access :: after →
      ∀ watched, (Watched.start settings).run before = watched →
      ∀ crowded, access.crowded? watched.cache = some crowded →
        (watched.after access).cache = crowded.evict ∧
        (∀ name entry, access = .insert name entry →
          (watched.after access).cache.find? name entry.type = some entry) ∧
        ∀ dropped, (crowded.entries? dropped).isSome →
          (watched.after access).cache.entries? dropped = none →
          ∀ kept entries, (watched.after access).cache.entries? kept = some entries →
            crowded.entries? kept = some entries ∧
              UsedBefore (watched.after access).uses dropped.fold kept.fold := by
  have empty := wellFormed_empty settings
  refine ⟨?_, fun before action after split sees => size_after sees, ?_⟩
  · rw [Watched.cache_run, Scene.cache_run]
    rfl
  intro before access after split watched runs crowded fills
  have order := Watched.recentFirst_run settings before
  have all : ∀ access ∈ (start settings).accesses actions, access.Proper :=
    proper_accesses room actions
  rw [split, List.forall_mem_append] at all
  have shape := Access.wellFormed_performAll empty before
  have more : 0 < (Access.performAll (.empty settings) before).settings.maxNames :=
    Access.room_performAll all.1 room
  -- The watched cache is the one to which the accesses are made.
  have same : Access.performAll (.empty settings) before = watched.cache := by
    rw [← runs, Watched.cache_run]
    rfl
  rw [runs] at order
  rw [same] at shape more
  have evicts : (watched.after access).cache = crowded.evict := Access.perform_of_crowded fills
  refine ⟨evicts, ?_, fun dropped known gone kept entries stays => ?_⟩
  · rintro name entry rfl
    exact find?_insert_self shape more name entry
  · rw [evicts] at gone stays
    exact (Access.recentFirst_crowded order fills).of_evict known gone stays

/-- A `host` with an address. -/
def host (owner : UInt8) : RecordSet :=
  ⟨.top owner, .internet, 300, .a (.ofOctets 192 0 2 owner), []⟩

/-- Of the first two hosts one is looked up before the third one comes, when `setMaxNames` leaves
room for two names only. -/
def visits : List Action :=
  [.setMaxNames 2, .addSet (host 97) .authAnswer, .addSet (host 98) .authAnswer,
    .lookup (.top 97) .a .authAnswer, .addSet (host 99) .authAnswer]

theorem Scene.evicts_least_recent_visits :
    let entry : Entry := ⟨.present (host 99), .authAnswer, .ofSeconds 300⟩
    let watched := (Watched.start .default).run (((Scene.start .default).accesses visits).take 8)
    let next := watched.after (.insert (.top 99) entry)
    ((Scene.start .default).run visits).cache = next.cache ∧ next.cache.size ≤ 2 ∧
      next.cache.find? (.top 99) .a = some entry ∧
      (watched.cache.place (.top 99) entry).entries? (.top 97) = next.cache.entries? (.top 97) ∧
      UsedBefore next.uses (.top 98) (.top 97) := by
  intro entry watched next
  obtain ⟨same, sizes, evictions⟩ := evicts_least_recent .default (by decide) visits
  have split : (start .default).accesses visits =
      ((start .default).accesses visits).take 8 ++ [.insert (.top 99) entry] := rfl
  have last : ((start .default).run visits).cache = next.cache := by
    rw [← same, split, Watched.run, List.foldl_append]
    rfl
  have inserts : (Action.addSet (host 99) .authAnswer).Inserts
      ((start .default).run (visits.take 4)) :=
    ⟨.top 99, entry, List.mem_cons_of_mem _ List.mem_cons_self⟩
  obtain ⟨-, there, drops⟩ := evictions _ _ [] split watched rfl _ rfl
  have kept : next.cache.entries? (.top 97) =
      some [⟨.present (host 97), .authAnswer, .ofSeconds 300⟩] := by decide +kernel
  obtain ⟨stays, before⟩ := drops (.top 98) (by decide +kernel) (by decide +kernel) (.top 97) _ kept
  refine ⟨last, ?_, there _ _ rfl, stays.trans kept.symm, before⟩
  rw [← last]
  exact sizes (visits.take 4) _ [] rfl (.inl inserts)

end Cache

end NameResolution
