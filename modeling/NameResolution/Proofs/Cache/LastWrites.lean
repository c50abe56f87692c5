import NameResolution.Proofs.Cache.Recency

/-!
# The last write of an entry

An entry that a cache keeps is just as some access to the store has put it in, and nothing else was
put in at its name and type since then. So what is true of all that is ever put in is true of all
entries. This gives an end to their lives: no entry is put in that would live longer than the
settings allow at the time.

* `Cache.Access.written?`: the entry that an access puts in for a name and type.
  `Cache.Access.find?_performAll`: an entry is there after some accesses because one of them wrote
  it, or because none wrote another one in its place.
* `Cache.Action.timely_accesses`: whatever an action puts in ends in time.
* `Cache.Scene.LastWritten`: the scene in which the entry for a name and type was written last.
  `Cache.Scene.ends_of_find?_run`: each entry ends in time for the scene of its last write.
-/

namespace NameResolution

/-- The limit on how long something is kept that says what the `entry` says. -/
def Entry.most (entry : Entry) : CacheSettings → Duration :=
  match entry.finding with
  | .present _ => CacheSettings.maxLife
  | .absent _ => CacheSettings.maxNegativeLife

/-- The `entry` lives no longer than it may if it is written at a time under some `settings`. -/
def Entry.EndsInTime (entry : Entry) (now : Duration) (settings : CacheSettings) : Prop :=
  entry.expireAt.nanos ≤ now.nanos + (entry.most settings).nanos

namespace Cache

/-! ## What accesses write -/

namespace Access

variable {cache : Cache} {name : Name} {type : RecordType} {entry : Entry}

/-- The `entry` that an `Access` writes for a `name` and `type`, if it writes one. -/
def written? (name : Name) (type : RecordType) : Access → Option Entry
  | insert other entry | replace other entry =>
    if name.fold = other.fold ∧ type = entry.type then some entry else none
  | _ => none

/-- An `entry` that is there after an `access` was written by it, or it was there before. -/
theorem find?_perform (shape : cache.WellFormed) {access : Access}
    (found : (access.perform cache).find? name type = some entry) :
    access.written? name type = some entry ∨
      access.written? name type = none ∧ cache.find? name type = some entry := by
  -- Only putting in and replacing write an entry; every other access takes entries away at most.
  cases access with
  | find other asked now => exact .inr ⟨rfl, find?_sweep_eq_some found⟩
  | collect other request =>
    exact .inr ⟨rfl, (sheds_collect request other cache shape).find?_eq_some found⟩
  | insert other new =>
    have placed := find?_evict_eq_some _ found
    rw [find?_place] at placed
    split at placed
    · rename_i same
      exact .inl ((if_pos same).trans placed)
    · rename_i different
      exact .inr ⟨if_neg different, placed⟩
  | replace other new =>
    rw [perform, find?_replace] at found
    split at found
    · rename_i same
      obtain ⟨-, -, rfl⟩ := Option.map_eq_some_iff.mp found
      exact .inl (if_pos same)
    · rename_i different
      exact .inr ⟨if_neg different, found⟩
  | remove other asked =>
    rw [perform, find?_remove] at found
    split at found
    · cases found
    · exact .inr ⟨rfl, found⟩
  | removeName other =>
    rw [perform, find?_removeName] at found
    split at found
    · cases found
    · exact .inr ⟨rfl, found⟩
  | evict => exact .inr ⟨rfl, find?_evict_eq_some cache found⟩
  | clear => cases found
  | configure settings => exact .inr ⟨rfl, found⟩

/-- So an `entry` that is there after some `accesses` was written by one of them, or it was there
before and none of them wrote another one in its place. -/
theorem find?_performAll (shape : cache.WellFormed) {accesses : List Access}
    (found : (performAll cache accesses).find? name type = some entry) :
    (∃ access ∈ accesses, access.written? name type = some entry) ∨
      (∀ access ∈ accesses, access.written? name type = none) ∧
        cache.find? name type = some entry := by
  induction accesses generalizing cache with
  | nil => exact .inr ⟨List.forall_mem_nil _, found⟩
  | cons access accesses ih =>
    obtain ⟨later, member, wrote⟩ | ⟨silent, before⟩ := ih (wellFormed_perform shape access) found
    · exact .inl ⟨later, List.mem_cons_of_mem _ member, wrote⟩
    · obtain wrote | ⟨passed, before⟩ := find?_perform shape before
      · exact .inl ⟨access, List.mem_cons_self, wrote⟩
      · exact .inr ⟨List.forall_mem_cons.mpr ⟨passed, silent⟩, before⟩

/-- An `entry` that the `Access` writes ends in time. -/
def Timely (now : Duration) (settings : CacheSettings) : Access → Prop
  | insert _ entry | replace _ entry => entry.EndsInTime now settings
  | _ => True

variable {access : Access} {now : Duration} {settings : CacheSettings}

theorem ReadsOnly.timely (reads : access.ReadsOnly) : access.Timely now settings := by
  cases access with
  | insert name entry => cases reads
  | replace name entry => cases reads
  | _ => trivial

theorem Timely.endsInTime (timely : access.Timely now settings)
    (wrote : access.written? name type = some entry) : entry.EndsInTime now settings := by
  cases access with
  | insert other new =>
    obtain ⟨-, same⟩ := Option.ite_none_right_eq_some.mp wrote
    exact Option.some.inj same ▸ timely
  | replace other new =>
    obtain ⟨-, same⟩ := Option.ite_none_right_eq_some.mp wrote
    exact Option.some.inj same ▸ timely
  | _ => cases wrote

end Access

/-! ## What actions write ends in time -/

theorem lifetime_le (ttl : UInt32) (most : Duration) : (lifetime ttl most).nanos ≤ most.nanos := by
  unfold lifetime
  rw [nanos_min]
  exact Nat.min_le_right _ _

theorem Write.endsInTime_of_expiry {write : Write} {now expireAt : Duration}
    {settings : CacheSettings}
    (ended : expiry now write.ttl (write.most settings) = .ok expireAt) :
    Entry.EndsInTime ⟨write.finding, write.credibility, expireAt⟩ now settings := by
  have own : Entry.most ⟨write.finding, write.credibility, expireAt⟩ = write.most := by
    cases write <;> rfl
  have within := lifetime_le write.ttl (write.most settings)
  unfold Entry.EndsInTime
  obtain ⟨other, known, sum⟩ | ⟨known, -⟩ := expiry_spec now write.ttl (write.most settings)
  · obtain rfl := Except.ok.inj (ended.symm.trans known)
    rw [own, sum]
    exact Nat.add_le_add_left within _
  · rw [known] at ended
    cases ended

theorem Write.timely_accesses (write : Write) (now : Duration) (cache : Cache) :
    ∀ access ∈ write.accesses now cache, access.Timely now cache.settings := by
  unfold Write.accesses
  split
  · exact List.forall_mem_nil _
  refine List.forall_mem_cons.mpr ⟨trivial, ?_⟩
  obtain keep | remove | ⟨expireAt, ended, insert⟩ |
    ⟨record, entry, set, expireAt, -, -, -, replace, -, within⟩ :=
    write.verdict_cases (cache.current? write.name write.type now) now cache.settings
  · rw [keep]
    exact List.forall_mem_nil _
  · rw [remove]
    exact List.forall_mem_singleton.mpr trivial
  · rw [insert]
    exact List.forall_mem_singleton.mpr (Write.endsInTime_of_expiry ended)
  · rw [replace]
    have longest := lifetime_le record.ttl cache.settings.maxLife
    have ends : (Write.joined entry set record expireAt).EndsInTime now cache.settings :=
      Nat.le_trans within (Nat.add_le_add_left longest _)
    exact List.forall_mem_singleton.mpr ends

theorem timely_writesAccesses (now : Duration) (writes : List Write) (cache : Cache) :
    ∀ access ∈ writesAccesses now writes cache, access.Timely now cache.settings := by
  induction writes generalizing cache with
  | nil => exact List.forall_mem_nil _
  | cons write writes ih =>
    refine List.forall_mem_append.mpr ⟨write.timely_accesses now cache, ?_⟩
    split
    · have rest := ih (write.perform now cache).2
      rwa [write.settings_perform now cache] at rest
    · exact List.forall_mem_nil _

/-- Whatever an `action` puts in ends in time for the `settings` at the time. -/
theorem Action.timely_accesses (action : Action) (now : Duration) (cache : Cache) :
    ∀ access ∈ action.accesses now cache, access.Timely now cache.settings := by
  have read (request : Request) (name : Name) :
      ∀ access ∈ lookupAccesses request name cache, access.Timely now cache.settings :=
    fun access member => (readsOnly_lookupAccesses request name cache access member).timely
  cases action with
  | lookup name type least => exact read _ name
  | findRecords name type => exact read _ name
  | flushName name => exact List.forall_mem_singleton.mpr trivial
  | flushSet name type => exact List.forall_mem_singleton.mpr trivial
  | clear => exact List.forall_mem_singleton.mpr trivial
  | setMaxNames value => exact List.forall_mem_singleton.mpr trivial
  | setMaxLife value => exact List.forall_mem_singleton.mpr trivial
  | setMaxNegativeLife value => exact List.forall_mem_singleton.mpr trivial
  | _ => exact timely_writesAccesses now _ cache

/-! ## Runs -/

namespace Scene

/-- Of some actions, the one that happens in the scene `writing` is the last one that writes the
entry for a name and type. -/
def LastWritten (scene : Scene) (actions : List Action) (name : Name) (type : RecordType)
    (writing : Scene) : Prop :=
  ∃ before action after, actions = before ++ action :: after ∧ scene.run before = writing ∧
    (∃ access ∈ action.accesses writing.now writing.cache,
      (access.written? name type).isSome) ∧
    ∀ access ∈ (writing.after action).accesses after, access.written? name type = none

/-- The largest value, in nanoseconds, that a `setting` has from the start of a run to its end. -/
def largest (setting : CacheSettings → Duration) (scene : Scene) : List Action → Nat
  | [] => (setting scene.cache.settings).nanos
  | action :: actions =>
    max (setting scene.cache.settings).nanos ((scene.after action).largest setting actions)

theorem le_largest (setting : CacheSettings → Duration) (scene : Scene)
    (before after : List Action) : (setting (scene.run before).cache.settings).nanos ≤
      scene.largest setting (before ++ after) := by
  induction before generalizing scene with
  | nil =>
    cases after with
    | nil => exact Nat.le_refl _
    | cons action after => exact Nat.le_max_left _ _
  | cons action before ih =>
    exact Nat.le_trans (ih (scene.after action)) (Nat.le_max_right _ _)

/-- The `settings` in which an entry was written last are among those of the run. -/
theorem LastWritten.le_largest {scene writing : Scene} {actions : List Action} {name : Name}
    {type : RecordType} (written : scene.LastWritten actions name type writing)
    (setting : CacheSettings → Duration) :
    (setting writing.cache.settings).nanos ≤ scene.largest setting actions := by
  obtain ⟨before, action, after, rfl, rfl, -⟩ := written
  exact scene.le_largest setting before (action :: after)

/-- An `entry` that is there after a `run` ends in time for the `scene` in which it was written
last. If it was not written in the run, it was there before. -/
theorem ends_of_find?_run {scene : Scene} (shape : scene.cache.WellFormed) {actions : List Action}
    {name : Name} {type : RecordType} {entry : Entry}
    (found : (scene.run actions).cache.find? name type = some entry) :
    (∃ writing, scene.LastWritten actions name type writing ∧
      entry.EndsInTime writing.now writing.cache.settings) ∨
    (∀ access ∈ scene.accesses actions, access.written? name type = none) ∧
      scene.cache.find? name type = some entry := by
  induction actions generalizing scene with
  | nil => exact .inr ⟨List.forall_mem_nil _, found⟩
  | cons action actions ih =>
    have shape' := (action.effect_operate scene.now scene.cache).wellFormed shape
    obtain ⟨writing, ⟨before, last, after, rfl, runs, wrote, silent⟩, ends⟩ | ⟨silent, known⟩ :=
      ih shape' found
    · exact .inl ⟨writing, ⟨action :: before, last, after, rfl, runs, wrote, silent⟩, ends⟩
    · -- No later action wrote the entry, so it is what this action has left.
      have known : (Access.performAll scene.cache
          (action.accesses scene.now scene.cache)).find? name type = some entry := by
        rw [← action.operate_accesses]
        exact known
      obtain ⟨access, member, wrote⟩ | ⟨passed, before⟩ := Access.find?_performAll shape known
      · have timely := action.timely_accesses scene.now scene.cache access member
        exact .inl ⟨scene, ⟨[], action, actions, rfl, rfl,
          ⟨access, member, Option.isSome_of_eq_some wrote⟩, silent⟩, timely.endsInTime wrote⟩
      · exact .inr ⟨List.forall_mem_append.mpr ⟨passed, silent⟩, before⟩

end Scene

end Cache

end NameResolution
