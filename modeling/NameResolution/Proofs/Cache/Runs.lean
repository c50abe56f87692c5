import NameResolution.Proofs.Cache.Messages
import NameResolution.Proofs.RecordSets

/-!
# Runs of a cache

A `Scene` is a cache at a time. Things happen to it one after the other; the clock never goes back.

* `Cache.Action`: all that can happen to a cache. `Cache.Action.writes`: what is added by this.
* `Cache.Scene.run`: the scene after some actions.
* `Cache.Action.operate_cases`: an action writes, reads, removes or configures.
* `Cache.Write.find?_perform`: an entry that is there after a write was there before, or it is what
  the write says, or the set of an entry that a record has joined.
-/

namespace NameResolution

namespace Cache

/-- What can happen to a `Cache`. -/
inductive Action
  | addRecord (record : Record) (credibility : Credibility)
  | addSet (set : RecordSet) (credibility : Credibility)
  | addNegative (name : Name) (type : RecordType) (soa : Option Record) (credibility : Credibility)
  | addMessage (message : Message)
  | lookup (name : Name) (type : RecordType) (least : Credibility)
  | findRecords (name : Name) (type : RecordType)
  | flushName (name : Name)
  | flushSet (name : Name) (type : RecordType)
  | clear
  | setMaxNames (value : Nat)
  | setMaxLife (value : Duration)
  | setMaxNegativeLife (value : Duration)
  | advance (span : Duration)

namespace Action

/-- What an `Action` does to the `Cache`. -/
def operate (now : Duration) : Action → Op Cache Unit
  | addRecord record credibility => Cache.addRecord record credibility now
  | addSet set credibility => Cache.addSet set credibility now
  | addNegative name type soa credibility => Cache.addNegative name type soa credibility now
  | addMessage message => do let _ ← Cache.addMessage message now
  | lookup name type least => do let _ ← Cache.lookup name type least now
  | findRecords name type => do let _ ← Cache.findRecords name type now
  | flushName name => modify (·.removeName name)
  | flushSet name type => modify (·.remove name type)
  | clear => modify Cache.clear
  | setMaxNames value => modify (·.withSettings (·.setMaxNames value))
  | setMaxLife value => modify (·.withSettings (·.setMaxLife value))
  | setMaxNegativeLife value => modify (·.withSettings (·.setMaxNegativeLife value))
  | advance _ => pure ()

/-- How far an `Action` moves the clock. -/
def span : Action → Duration
  | advance span => span
  | _ => .zero

/-- What an `Action` adds to the cache. -/
def writes : Action → List Write
  | addRecord record credibility => [.ofRecord record credibility]
  | addSet set credibility => [.ofSet set credibility]
  | addNegative name type soa credibility =>
    match absenceTtl soa with
    | .ok ttl => [.ofAbsence name type ttl credibility]
    | .error _ => []
  | addMessage message => writesOf message
  | _ => []

end Action

/-- A `Cache` at a time. -/
structure Scene where
  cache : Cache
  now : Duration

namespace Scene

/-- A `Scene` of a cache that knows nothing, at the beginning of time. -/
def start (settings : CacheSettings) : Scene := ⟨.empty settings, .zero⟩

/-- The `scene` after an `action`. What a refused action has changed stays changed. -/
def after (scene : Scene) (action : Action) : Scene :=
  ⟨(action.operate scene.now scene.cache).2, scene.now.saturatingAdd action.span⟩

/-- The `scene` after some `actions`. -/
def run (scene : Scene) (actions : List Action) : Scene := actions.foldl after scene

@[simp] theorem run_nil (scene : Scene) : scene.run [] = scene := rfl

@[simp] theorem run_cons (scene : Scene) (action : Action) (actions : List Action) :
    scene.run (action :: actions) = (scene.after action).run actions := rfl

/-- The clock never goes back, whatever the `action`. -/
theorem now_le_now_after (scene : Scene) (action : Action) :
    scene.now ≤ (scene.after action).now :=
  scene.now.le_saturatingAdd action.span

end Scene

/-! ## What actions do -/

/-- A `lookup` drops the names beyond the limit (`evict`), and then nothing but entries that no
longer count. -/
theorem sheds_lookup (name : Name) (type : RecordType) (least : Credibility) (now : Duration)
    (cache : Cache) : (lookup name type least now cache).2 = cache ∨
      Sheds now cache.evict (lookup name type least now cache).2 := by
  cases absolute : name.absolute with
  | false => exact .inl (by rw [lookup_relative absolute])
  | true =>
    refine .inr ?_
    rw [lookup_apply absolute]
    exact sheds_lookupSuffixes ⟨type, least, now⟩ _ _

/-- What an `action` does to the `cache`: it writes, reads, removes or configures. -/
inductive Action.Effect (action : Action) (now : Duration) (before : Cache) : Cache → Prop
  | writes : Effect action now before (performAll now action.writes before).2
  | reads (name : Name) (type : RecordType) (least : Credibility)
    (is : ∀ cache, (action.operate now cache).2 = (Cache.lookup name type least now cache).2) :
    Effect action now before (Cache.lookup name type least now before).2
  | flushName (name : Name) (is : action = .flushName name) :
    Effect action now before (before.removeName name)
  | flushSet (name : Name) (type : RecordType) (is : action = .flushSet name type) :
    Effect action now before (before.remove name type)
  | clear (is : action = .clear) : Effect action now before before.clear
  | configures (settings : CacheSettings)
    (room : 0 < before.settings.maxNames → 0 < settings.maxNames) :
    Effect action now before { before with settings := settings }

theorem performAll_singleton (now : Duration) (write : Write) :
    performAll now [write] = write.perform now := by
  simp [performAll]

theorem setMaxNames_pos (settings : CacheSettings) (value : Nat) :
    0 < (settings.setMaxNames value).maxNames := by
  show 0 < max 1 _
  omega

/-- All that an `action` can do to a `cache`. -/
theorem Action.effect_operate (action : Action) (now : Duration) (cache : Cache) :
    action.Effect now cache (action.operate now cache).2 := by
  have wrote (write : Write) (writes : action.writes = [write]) :
      action.Effect now cache (write.perform now cache).2 := by
    rw [← performAll_singleton, ← writes]
    exact .writes
  cases action with
  | addRecord record credibility => exact wrote _ rfl
  | addSet set credibility => exact wrote _ rfl
  | addNegative name type soa credibility =>
    simp only [operate, Cache.addNegative, Op.bind_apply, Op.ofExcept_apply]
    cases given : absenceTtl soa with
    | ok ttl => exact wrote (.ofAbsence name type ttl credibility) (by simp only [writes, given])
    | error misuse => exact .configures cache.settings id
  | addMessage message =>
    have same : operate now (.addMessage message) = performAll now (writesOf message) := by
      simp only [operate, addMessage_eq, bind_assoc, pure_bind, bind_pure_unit]
    rw [same]
    exact .writes
  | lookup name type least =>
    have is (cache : Cache) : (operate now (.lookup name type least) cache).2 =
        (Cache.lookup name type least now cache).2 := by
      simp only [operate, bind_pure_comp, Op.map_apply]
    rw [is]
    exact .reads name type least is
  | findRecords name type =>
    have is (cache : Cache) : (operate now (.findRecords name type) cache).2 =
        (Cache.lookup name type .normal now cache).2 := by
      simp only [operate, Cache.findRecords, bind_pure_comp, Op.map_apply]
    rw [is]
    exact .reads name type .normal is
  | flushName name => exact .flushName name rfl
  | flushSet name type => exact .flushSet name type rfl
  | clear => exact .clear rfl
  | setMaxNames value =>
    exact .configures _ fun _ => setMaxNames_pos cache.settings value
  | setMaxLife value => exact .configures _ id
  | setMaxNegativeLife value => exact .configures _ id
  | advance span => exact .configures cache.settings id

/-! ## What all actions keep -/

/-- Performing `writes` keeps what each of them keeps. -/
theorem performAll_keeps (keeps : Cache → Prop) {now : Duration} {writes : List Write}
    (each : ∀ write ∈ writes, ∀ cache, keeps cache → keeps (write.perform now cache).2)
    {cache : Cache} (before : keeps cache) : keeps (performAll now writes cache).2 := by
  induction writes generalizing cache with
  | nil => exact before
  | cons write writes ih =>
    have first := each write List.mem_cons_self cache before
    rw [performAll, Op.bind_apply]
    rcases performed : write.perform now cache with ⟨misuse | _, middle⟩
    · rwa [performed] at first
    · rw [performed] at first
      exact ih (fun write member => each write (List.mem_cons_of_mem _ member)) first

theorem Change.wellFormed_apply {cache : Cache} (shape : cache.WellFormed) (name : Name)
    (type : RecordType) (change : Change) : (change.apply name type cache).WellFormed := by
  cases change with
  | keep => exact shape
  | remove => exact shape.remove name type
  | replace entry => exact shape.replace name entry
  | insert entry => exact shape.insert name entry

theorem Write.wellFormed_perform {cache : Cache} (shape : cache.WellFormed) (write : Write)
    (now : Duration) : (write.perform now cache).2.WellFormed := by
  rw [write.perform_apply]
  split
  · exact shape
  · exact Change.wellFormed_apply (shape.sweep _ _ _) _ _ _

theorem Action.Effect.wellFormed {action : Action} {now : Duration} {before after : Cache}
    (effect : action.Effect now before after) (shape : before.WellFormed) : after.WellFormed := by
  cases effect with
  | writes =>
    exact performAll_keeps WellFormed (fun write _ _ shape => write.wellFormed_perform shape now)
      shape
  | reads name type least is =>
    obtain same | sheds := sheds_lookup name type least now before
    · rwa [same]
    · exact (sheds shape.evict).wellFormed
  | flushName name is => exact shape.removeName name
  | flushSet name type is => exact shape.remove name type
  | clear is => exact .clear before
  | configures settings room =>
    exact ⟨shape.folded, shape.distinct, shape.filled, shape.types⟩

theorem Scene.wellFormed_run {scene : Scene} (shape : scene.cache.WellFormed)
    (actions : List Action) : (scene.run actions).cache.WellFormed := by
  induction actions generalizing scene with
  | nil => exact shape
  | cons action actions ih =>
    exact ih ((action.effect_operate scene.now scene.cache).wellFormed shape)

theorem Change.settings_apply (name : Name) (type : RecordType) (change : Change) (cache : Cache) :
    (change.apply name type cache).settings = cache.settings := by
  cases change with
  | keep => rfl
  | remove => exact settings_remove cache name type
  | replace entry => exact settings_replace cache name entry
  | insert entry => exact settings_place cache name entry

theorem Write.settings_perform (write : Write) (now : Duration) (cache : Cache) :
    (write.perform now cache).2.settings = cache.settings := by
  rw [write.perform_apply]
  split
  · rfl
  · exact (Change.settings_apply _ _ _ _).trans (settings_sweep cache _ _ now)

/-- There is always `room` for at least one name. -/
theorem Action.Effect.room {action : Action} {now : Duration} {before after : Cache}
    (effect : action.Effect now before after) (shape : before.WellFormed)
    (room : 0 < before.settings.maxNames) : 0 < after.settings.maxNames := by
  cases effect with
  | writes =>
    exact performAll_keeps (fun cache => 0 < cache.settings.maxNames)
      (fun write _ cache room => by rwa [write.settings_perform now cache]) room
  | reads name type least is =>
    obtain same | sheds := sheds_lookup name type least now before
    · rwa [same]
    · rw [(sheds shape.evict).settings]
      exact room
  | flushName name is => exact room
  | flushSet name type is => rwa [settings_remove]
  | clear is => exact room
  | configures settings more => exact more room

theorem Scene.room_run {scene : Scene} (shape : scene.cache.WellFormed)
    (room : 0 < scene.cache.settings.maxNames) (actions : List Action) :
    0 < (scene.run actions).cache.settings.maxNames := by
  induction actions generalizing scene with
  | nil => exact room
  | cons action actions ih =>
    have effect := action.effect_operate scene.now scene.cache
    exact ih (effect.wellFormed shape) (effect.room shape room)

/-- Only the `writes` of an action bring anything new. -/
theorem Action.Effect.writes_or_known {action : Action} {now : Duration} {before after : Cache}
    (effect : action.Effect now before after) (shape : before.WellFormed) :
    after = (performAll now action.writes before).2 ∨
      ∀ name type entry, after.find? name type = some entry →
        before.find? name type = some entry := by
  cases effect with
  | writes => exact .inl rfl
  | reads name type least is =>
    refine .inr fun other asked entry found => ?_
    obtain same | sheds := sheds_lookup name type least now before
    · rwa [same] at found
    · exact find?_evict_eq_some before ((sheds shape.evict).find?_eq_some found)
  | flushName name is =>
    refine .inr fun other type entry found => ?_
    rw [find?_removeName] at found
    split at found
    · cases found
    · exact found
  | flushSet name type is =>
    refine .inr fun other asked entry found => ?_
    rw [find?_remove] at found
    split at found
    · cases found
    · exact found
  | clear is => exact .inr fun name type entry found => by cases found
  | configures settings room => exact .inr fun name type entry found => found

/-! ## The entries after a write -/

theorem find?_sweep_eq_some {cache : Cache} {name other : Name} {type asked : RecordType}
    {now : Duration} {entry : Entry}
    (found : (cache.sweep name type now).find? other asked = some entry) :
    cache.find? other asked = some entry := by
  rw [find?_sweep] at found
  split at found
  · rename_i same
    rw [find?_congr cache same.1, same.2]
    exact (current?_eq_some.1 found).1
  · exact found

theorem Write.type_finding (write : Write) (credibility : Credibility) (expireAt : Duration) :
    (Entry.mk write.finding credibility expireAt).type = write.type := by
  cases write <;> rfl

theorem type_of_present {entry : Entry} {set : RecordSet}
    (said : entry.finding = .present set) : set.type = entry.type := by
  unfold Entry.type
  rw [said]

theorem type_joined {old : Entry} {set : RecordSet} {record : Record} {expireAt : Duration}
    {type : RecordType} (said : old.finding = .present set) (kind : old.type = type) :
    (Write.joined old set record expireAt).type = type :=
  (RecordSet.type_merge _ _).trans ((type_of_present said).trans kind)

/-- An `entry` that is there after a `write` was there before, or it is what the write says, or it
is the record `set` of an entry that a `record` has joined. -/
theorem Write.find?_perform {write : Write} {now : Duration} {cache : Cache} {name : Name}
    {type : RecordType} {entry : Entry}
    (found : (write.perform now cache).2.find? name type = some entry) :
    cache.find? name type = some entry ∨ write.IsFor name type ∧
      ((∃ expireAt, expiry now write.ttl (write.most cache.settings) = .ok expireAt ∧
          entry = ⟨write.finding, write.credibility, expireAt⟩) ∨
        ∃ record old set expireAt, write = .ofRecord record old.credibility ∧
          cache.find? name type = some old ∧ old.finding = .present set ∧
          entry = joined old set record expireAt ∧ expireAt ≤ old.expireAt ∧
          expireAt.nanos ≤ now.nanos + (lifetime record.ttl cache.settings.maxLife).nanos) := by
  rw [write.perform_apply] at found
  split at found
  · exact .inl found
  obtain keep | remove | ⟨expireAt, ended, insert⟩ |
    ⟨record, old, set, expireAt, rfl, existing, said, replace, sooner, within⟩ :=
    write.verdict_cases (cache.current? write.name write.type now) now cache.settings
  · rw [keep, Change.apply] at found
    exact .inl (find?_sweep_eq_some found)
  · rw [remove, Change.apply, find?_remove] at found
    split at found
    · cases found
    · exact .inl (find?_sweep_eq_some found)
  · rw [insert, Change.apply, Cache.insert] at found
    have found := find?_evict_eq_some _ found
    rw [find?_place] at found
    split at found
    · rename_i same
      rw [write.type_finding] at same
      exact .inr ⟨⟨same.1.symm, same.2.symm⟩, .inl ⟨expireAt, ended, (Option.some.inj found).symm⟩⟩
    · exact .inl (find?_sweep_eq_some found)
  · rw [replace, Change.apply, find?_replace] at found
    split at found
    · rename_i same
      obtain ⟨kept, counts⟩ := current?_eq_some.1 existing
      have kind : (joined old set record expireAt).type = record.type :=
        type_joined said (type_of_find? kept)
      rw [kind] at same found
      rw [find?_sweep, if_pos ⟨rfl, rfl⟩, existing, Option.map_some, Option.some.injEq] at found
      refine .inr ⟨⟨same.1.symm, same.2.symm⟩, .inr ⟨record, old, set, expireAt, rfl, ?_, said,
        found.symm, sooner, within⟩⟩
      rw [find?_congr cache same.1, same.2]
      exact kept
    · exact .inl (find?_sweep_eq_some found)

end Cache

end NameResolution
