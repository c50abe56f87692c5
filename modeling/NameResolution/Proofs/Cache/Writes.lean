import NameResolution.Cache.Response
import NameResolution.Proofs.Cache.Reading

/-!
# Writing to a cache

A `Write` is something that is added to a cache for one name and type. What becomes of it only
depends on the entry that counts for this name and type.

* `Cache.Write.verdict`: the `Change` that a write makes to the entry for its name and type.
* `Cache.Write.perform_apply`: adding something uses the name, and then makes this change.
-/

namespace NameResolution

namespace Cache

/-! ## Using a name twice -/

theorem others_cons (cache : Cache) (name : Name) (entries : List Entry) :
    others { cache with names := (name.fold, entries) :: cache.others name } name =
      cache.others name := by
  simp [others]

/-- A `name` that is at the front stays there. -/
theorem touch_of_front {cache : Cache} {name : Name} {entries : List Entry}
    (front : cache.names = (name.fold, entries) :: cache.others name) :
    cache.touch name = cache := by
  have kept : cache.entries? name = some entries := by simp [entries?_eq, front]
  unfold touch
  rw [kept]
  simp only
  rw [← front]

theorem touch_of_unknown {cache : Cache} {name : Name} (unknown : cache.entries? name = none) :
    cache.touch name = cache := by
  unfold touch
  rw [unknown]

theorem touch_touch (cache : Cache) (name : Name) :
    (cache.touch name).touch name = cache.touch name := by
  cases kept : cache.entries? name with
  | none => rw [touch_of_unknown kept, touch_of_unknown kept]
  | some entries =>
    unfold touch
    rw [kept]
    exact touch_of_front (by rw [others_cons])

theorem map_others (cache : Cache) (name : Name) (item : Name × List Entry) :
    (cache.others name).map (fun old => if old.1 = name.fold then item else old) =
      cache.others name := by
  refine (List.map_congr_left fun old member => ?_).trans (List.map_id _)
  have different : old.1 ≠ name.fold := by simpa using (List.mem_filter.1 member).2
  rw [if_neg different, id]

theorem setEntries_of_isEmpty (cache : Cache) (name : Name) {entries : List Entry}
    (empty : entries.isEmpty = true) : cache.setEntries name entries = cache.removeName name := by
  unfold setEntries
  rw [if_pos empty]
  rfl

theorem setEntries_of_nonempty (cache : Cache) (name : Name) {entries : List Entry}
    (nonempty : entries.isEmpty = false) :
    cache.setEntries name entries = { cache with
      names := cache.names.map fun item =>
        if item.1 = name.fold then (name.fold, entries) else item } := by
  unfold setEntries
  rw [if_neg (by simpa using nonempty)]

theorem setEntries_of_front {cache : Cache} {name : Name} {entries : List Entry}
    (front : cache.names = (name.fold, entries) :: cache.others name) {next : List Entry}
    (nonempty : next.isEmpty = false) :
    cache.setEntries name next =
      { cache with names := (name.fold, next) :: cache.others name } := by
  rw [setEntries_of_nonempty cache name nonempty, front, List.map_cons, if_pos rfl, map_others]

/-- Using a `name` that is known moves it to the front. -/
theorem names_touch {cache : Cache} {name : Name} {entries : List Entry}
    (kept : cache.entries? name = some entries) :
    (cache.touch name).names = (name.fold, entries) :: (cache.touch name).others name := by
  unfold touch
  rw [kept]
  simp only [others_cons]

theorem touch_remove_touch (cache : Cache) (name : Name) (type : RecordType) :
    ((cache.touch name).remove name type).touch name = (cache.touch name).remove name type := by
  cases kept : cache.entries? name with
  | none =>
    rw [touch_of_unknown kept]
    exact touch_of_unknown (entries?_remove_eq_none kept)
  | some entries =>
    have front := names_touch kept
    have here : (cache.touch name).entries? name = some entries := by rw [entries?_touch, kept]
    unfold remove
    rw [here]
    cases empty : (entries.filter (·.type ≠ type)).isEmpty with
    | true =>
      refine touch_of_unknown ?_
      rw [entries?_setEntries, if_pos rfl, if_pos empty]
    | false =>
      simp only
      rw [setEntries_of_front front empty]
      exact touch_of_front (by rw [others_cons])

theorem sweep_sweep (cache : Cache) (name : Name) (type : RecordType) (now : Duration) :
    (cache.sweep name type now).sweep name type now = cache.sweep name type now := by
  have swept : (cache.sweep name type now).sweep name type now =
      (cache.sweep name type now).touch name := by
    obtain ⟨same, -⟩ | ⟨-, entry, found, expired⟩ :=
      (cache.sweep name type now).sweep_eq name type now
    · exact same
    · rw [find?_sweep, if_pos ⟨rfl, rfl⟩, current?_eq_some] at found
      exact absurd expired found.2
  rw [swept]
  obtain ⟨same, -⟩ | ⟨same, -⟩ := cache.sweep_eq name type now
  · rw [same, touch_touch]
  · rw [same, touch_remove_touch]

theorem setEntries_setEntries (cache : Cache) (name : Name) {entries : List Entry}
    (nonempty : entries.isEmpty = false) (next : List Entry) :
    (cache.setEntries name entries).setEntries name next = cache.setEntries name next := by
  have each (item : Name × List Entry) :
      (if item.1 = name.fold then (name.fold, entries) else item).1 = item.1 := by
    split
    · rename_i here
      exact here.symm
    · rfl
  rw [setEntries_of_nonempty cache name nonempty]
  -- Without entries in the end the name goes, and with it what was set first.
  cases empty : next.isEmpty with
  | true =>
    rw [setEntries_of_isEmpty _ name empty, setEntries_of_isEmpty cache name empty]
    simp only [removeName, others, List.filter_map, Function.comp_def, each]
    exact congrArg (Cache.mk · cache.settings) (map_others cache name _)
  | false =>
    rw [setEntries_of_nonempty _ name empty, setEntries_of_nonempty cache name empty,
      List.map_map]
    simp only
    congr 1
    refine List.map_congr_left fun item _ => ?_
    rw [Function.comp_apply, each]
    by_cases here : item.1 = name.fold
    · rw [if_pos here, if_pos here]
    · rw [if_neg here, if_neg here, if_neg here]

theorem replace_of_unknown {cache : Cache} {name : Name} (unknown : cache.entries? name = none)
    (entry : Entry) : cache.replace name entry = cache := by
  unfold replace
  rw [unknown]

theorem replace_of_known {cache : Cache} {name : Name} {entries : List Entry}
    (known : cache.entries? name = some entries) (entry : Entry) :
    cache.replace name entry = cache.setEntries name
      (entries.map fun old => if old.type = entry.type then entry else old) := by
  unfold replace
  rw [known]

/-- Of two entries that take the same place one after the other, the `second` one stays. -/
theorem replace_replace (cache : Cache) (name : Name) {first second : Entry}
    (same : first.type = second.type) :
    (cache.replace name first).replace name second = cache.replace name second := by
  cases kept : cache.entries? name with
  | none => rw [replace_of_unknown kept first]
  | some entries =>
    rw [replace_of_known kept first, replace_of_known kept second]
    have next := entries?_setEntries cache name
      (entries.map fun old => if old.type = first.type then first else old) name
    rw [if_pos rfl, kept, Option.map_some] at next
    cases empty : (entries.map fun old => if old.type = first.type then first else old).isEmpty with
    | true =>
      obtain rfl : entries = [] := by simpa using empty
      exact replace_of_unknown next second
    | false =>
      rw [empty, if_neg Bool.false_ne_true] at next
      rw [replace_of_known next second, setEntries_setEntries cache name empty, List.map_map]
      congr 1
      refine List.map_congr_left fun old _ => ?_
      rw [Function.comp_apply, same]
      by_cases here : old.type = second.type
      · rw [if_pos here, if_pos same, if_pos here]
      · rw [if_neg here, if_neg here]

/-! ## Ends of lives -/

theorem nanos_min (a b : Duration) : (min a b).nanos = min a.nanos b.nanos := by
  show (if a.nanos ≤ b.nanos then a else b).nanos = _
  split <;> omega

/-- A life has an end (`expireAt`) unless the clock cannot go that far. -/
theorem expiry_spec (now : Duration) (ttl : UInt32) (most : Duration) :
    (∃ expireAt, expiry now ttl most = .ok expireAt ∧
      expireAt.nanos = now.nanos + (lifetime ttl most).nanos) ∨
    expiry now ttl most = .error .clockOverflow ∧
      Duration.longest.nanos < now.nanos + (lifetime ttl most).nanos := by
  unfold expiry Duration.add?
  generalize lifetime ttl most = life
  unfold Duration.ofNanos?
  by_cases bounded : now.nanos + life.nanos < 0x10000000000000000 * 1000000000
  · rw [dif_pos bounded]
    exact .inl ⟨_, rfl, rfl⟩
  · rw [dif_neg bounded]
    refine .inr ⟨rfl, ?_⟩
    simp only [Duration.longest]
    omega

/-! ## What writes change -/

/-- What becomes of the `entry` for a name and type. -/
inductive Change
  | keep
  | remove
  | replace (entry : Entry)
  | insert (entry : Entry)

/-- Makes a `Change` to the `entry` for a `name` and `type`. -/
def Change.apply (name : Name) (type : RecordType) : Change → Cache → Cache
  | keep, cache => cache
  | remove, cache => cache.remove name type
  | replace entry, cache => cache.replace name entry
  | insert entry, cache => cache.insert name entry

/-- What comes of a `Write`: whether it is refused, and the `Change` that it makes. -/
abbrev Verdict := Except Misuse Unit × Change

/-- Something that is added to a cache for one `name` and `type`. -/
inductive Write
  | ofRecord (record : Record) (credibility : Credibility)
  | ofSet (set : RecordSet) (credibility : Credibility)
  | ofAbsence (name : Name) (type : RecordType) (ttl : UInt32) (credibility : Credibility)

namespace Write

/-- The `name` that something is added for. -/
def name : Write → Name
  | ofRecord record _ => record.owner
  | ofSet set _ => set.owner
  | ofAbsence name _ _ _ => name

/-- The `type` that something is added for. -/
def type : Write → RecordType
  | ofRecord record _ => record.type
  | ofSet set _ => set.type
  | ofAbsence _ type _ _ => type

/-- How far what the `Write` adds can be trusted. -/
def credibility : Write → Credibility
  | ofRecord _ credibility | ofSet _ credibility | ofAbsence _ _ _ credibility => credibility

/-- The time to live that comes with a `Write`. -/
def ttl : Write → UInt32
  | ofRecord record _ => record.ttl
  | ofSet set _ => set.ttl
  | ofAbsence _ _ ttl _ => ttl

/-- The `data` that is added. -/
def data : Write → List RecordData
  | ofRecord record _ => [record.data]
  | ofSet set _ => set.data
  | ofAbsence .. => []

/-- The limit in the `CacheSettings` on how long a `Write` is kept. -/
def most : Write → CacheSettings → Duration
  | ofRecord .. | ofSet .. => CacheSettings.maxLife
  | ofAbsence .. => CacheSettings.maxNegativeLife

/-- What an `Entry` says that holds nothing else. -/
def finding : Write → Finding
  | ofRecord record _ => .present (.ofRecord record)
  | ofSet set _ => .present set
  | ofAbsence _ type _ _ => .absent type

/-- Adds it to a `Cache`. -/
def perform (now : Duration) : Write → Op Cache Unit
  | ofRecord record credibility => addRecord record credibility now
  | ofSet set credibility => addSet set credibility now
  | ofAbsence name type ttl credibility => addAbsence name type ttl credibility now

/-- The `write` is about this `name` and `type`. -/
def IsFor (write : Write) (name : Name) (type : RecordType) : Prop :=
  write.name.fold = name.fold ∧ write.type = type

instance (write : Write) (name : Name) (type : RecordType) : Decidable (write.IsFor name type) :=
  inferInstanceAs (Decidable (_ ∧ _))

/-- Why a `Write` is refused before anything is looked at. -/
def refusal? : Write → Option Misuse
  | ofRecord record _ =>
    if record.type.IsQueryOnly then some (.queryOnlyType record.type.toText) else none
  | ofSet set _ => if set.type.IsQueryOnly then some (.queryOnlyType set.type.toText) else none
  | ofAbsence name _ _ _ => if name.absolute then none else some (.relativeInCache name)

/-- What comes of keeping a finding unless there is an `Entry` that is more credible. -/
def ownVerdict (write : Write) (existing : Option Entry) (now : Duration)
    (settings : CacheSettings) : Verdict :=
  if existing.any (write.credibility < ·.credibility) then (.ok (), .keep)
  else if write.ttl = 0 then (.ok (), if existing.isSome then .remove else .keep)
  else match expiry now write.ttl (write.most settings) with
    | .ok expireAt => (.ok (), .insert ⟨write.finding, write.credibility, expireAt⟩)
    | .error misuse => (.error misuse, .keep)

/-- An `entry` whose `set` a `record` has joined, with another end of its life. -/
def joined (entry : Entry) (set : RecordSet) (record : Record) (expireAt : Duration) : Entry :=
  ⟨.present (set.merge (.ofRecord record)), entry.credibility, expireAt⟩

/-- What comes of joining the `set` of an `entry`, by the end of the life of the `record`. -/
def joinVerdict (entry : Entry) (set : RecordSet) (record : Record) :
    Except Misuse Duration → Verdict
  | .ok expireAt => (.ok (), .replace (joined entry set record (min entry.expireAt expireAt)))
  | .error misuse => (.error misuse, .replace (joined entry set record entry.expireAt))

/-- What comes of a `write`, by the `Entry` that counts. -/
def verdict (write : Write) (existing : Option Entry) (now : Duration)
    (settings : CacheSettings) : Verdict :=
  match write, existing with
  | ofRecord record credibility, some entry =>
    match entry.finding with
    | .present set =>
      if entry.credibility = credibility then
        joinVerdict entry set record (expiry now record.ttl settings.maxLife)
      else write.ownVerdict existing now settings
    | .absent _ => write.ownVerdict existing now settings
  | _, _ => write.ownVerdict existing now settings

theorem addFinding_apply (write : Write) (now : Duration) (cache : Cache) :
    addFinding write.name write.finding write.type write.ttl write.most write.credibility now
        cache =
      ((write.ownVerdict (cache.current? write.name write.type now) now cache.settings).1,
        (write.ownVerdict (cache.current? write.name write.type now) now cache.settings).2.apply
          write.name write.type (cache.sweep write.name write.type now)) := by
  unfold addFinding ownVerdict
  simp only [Op.bind_apply, Op.liftM_apply, live_apply]
  generalize cache.current? write.name write.type now = existing
  cases blocked : existing.any (write.credibility < ·.credibility) with
  | true => rfl
  | false =>
    by_cases zero : write.ttl = 0
    · cases existing <;> simp [zero, Change.apply]
    · cases ended : expiry now write.ttl (write.most cache.settings) <;>
        simp [zero, ended, settings_sweep, Change.apply]

theorem addSet_apply {set : RecordSet} (ordinary : ¬ set.type.IsQueryOnly)
    (credibility : Credibility) (now : Duration) (cache : Cache) :
    addSet set credibility now cache =
      addFinding set.owner (.present set) set.type set.ttl CacheSettings.maxLife credibility now
        cache := by
  unfold addSet refuseQueryOnly
  rw [if_neg ordinary]
  rfl

/-- A finding that is added after its `name` has been used is added as if the name had not been
used. -/
theorem addFinding_sweep (write : Write) (now : Duration) (cache : Cache) :
    addFinding write.name write.finding write.type write.ttl write.most write.credibility now
        (cache.sweep write.name write.type now) =
      addFinding write.name write.finding write.type write.ttl write.most write.credibility now
        cache := by
  have same : (cache.sweep write.name write.type now).current? write.name write.type now =
      cache.current? write.name write.type now := by
    rw [current?, find?_sweep, if_pos ⟨rfl, rfl⟩, current?, Option.filter_filter]
    simp
  rw [addFinding_apply, addFinding_apply, sweep_sweep, same, settings_sweep]

theorem joinEntry_apply (entry : Entry) (set : RecordSet) (record : Record) (now : Duration)
    (cache : Cache) :
    joinEntry entry set record now cache =
      ((joinVerdict entry set record (expiry now record.ttl cache.settings.maxLife)).1,
        (joinVerdict entry set record (expiry now record.ttl cache.settings.maxLife)).2.apply
          record.owner record.type cache) := by
  unfold joinEntry
  simp only [Op.bind_apply, Op.modify_apply, Op.get_apply, Op.ofExcept_apply, settings_replace]
  generalize expiry now record.ttl cache.settings.maxLife = ended
  cases ended with
  | error misuse => rfl
  | ok expireAt => exact Prod.ext rfl (replace_replace cache record.owner rfl)

/-- A `record` is kept as a set of its own, unless there is an entry that is more credible, or one
of its own `credibility` with a set that it can join. -/
theorem addRecord_apply {record : Record} (ordinary : ¬ record.type.IsQueryOnly)
    (credibility : Credibility) (now : Duration) (cache : Cache) :
    addRecord record credibility now cache =
      ((verdict (.ofRecord record credibility) (cache.current? record.owner record.type now) now
          cache.settings).1,
        (verdict (.ofRecord record credibility) (cache.current? record.owner record.type now) now
          cache.settings).2.apply record.owner record.type
            (cache.sweep record.owner record.type now)) := by
  -- Where the record joins nothing it is added as a set.
  have replacing : addSet (.ofRecord record) credibility now
      (cache.sweep record.owner record.type now) =
      ((ownVerdict (.ofRecord record credibility)
          (cache.current? record.owner record.type now) now cache.settings).1,
        (ownVerdict (.ofRecord record credibility)
          (cache.current? record.owner record.type now) now cache.settings).2.apply
            record.owner record.type (cache.sweep record.owner record.type now)) := by
    have own : ¬ (RecordSet.ofRecord record).type.IsQueryOnly := ordinary
    rw [addSet_apply own]
    exact (addFinding_sweep (.ofRecord record credibility) now cache).trans
      (addFinding_apply (.ofRecord record credibility) now cache)
  unfold addRecord refuseQueryOnly
  rw [if_neg ordinary]
  simp only [Op.bind_apply, Op.pure_apply, Op.liftM_apply, live_apply]
  revert replacing
  generalize cache.current? record.owner record.type now = existing
  intro replacing
  cases existing with
  | none => exact replacing
  | some entry =>
    obtain ⟨finding, level, expireAt⟩ := entry
    -- Blocked by something more credible, one of equal credibility to join, or less credible.
    by_cases blocked : credibility < level
    · have different : level ≠ credibility := by
        rintro rfl
        exact Nat.lt_irrefl _ blocked
      cases finding <;>
        simp [blocked, different, verdict, ownVerdict, Write.credibility, Change.apply]
    · simp only [if_neg blocked]
      cases finding with
      | absent type => exact replacing
      | present set =>
        by_cases same : level = credibility
        · simp only [if_pos same, verdict]
          rw [joinEntry_apply, settings_sweep]
        · simp only [if_neg same, verdict]
          exact replacing

/-- What a `write` does to a `cache`: its `name` is used, and the entry is changed for which it
is. -/
theorem perform_apply (write : Write) (now : Duration) (cache : Cache) :
    write.perform now cache =
      match write.refusal? with
      | some misuse => (.error misuse, cache)
      | none =>
        ((write.verdict (cache.current? write.name write.type now) now cache.settings).1,
          (write.verdict (cache.current? write.name write.type now) now cache.settings).2.apply
            write.name write.type (cache.sweep write.name write.type now)) := by
  cases write with
  | ofSet set credibility =>
    by_cases queryOnly : set.type.IsQueryOnly
    · simp [perform, addSet, refuseQueryOnly, refusal?, queryOnly]
    · simp only [perform, refusal?, if_neg queryOnly, addSet_apply queryOnly]
      exact addFinding_apply (.ofSet set credibility) now cache
  | ofAbsence name type ttl credibility =>
    cases absolute : name.absolute with
    | false => simp [perform, addAbsence, refusal?, absolute]
    | true =>
      simp only [perform, addAbsence, refusal?, absolute, if_true]
      exact addFinding_apply (.ofAbsence name type ttl credibility) now cache
  | ofRecord record credibility =>
    by_cases queryOnly : record.type.IsQueryOnly
    · simp [perform, addRecord, refuseQueryOnly, refusal?, queryOnly]
    · simp only [perform, refusal?, if_neg queryOnly]
      exact addRecord_apply queryOnly credibility now cache

/-- A `record` joins a record `set` of its own `credibility`. Every other `write` stands for
itself. -/
theorem verdict_eq (write : Write) (existing : Option Entry) (now : Duration)
    (settings : CacheSettings) :
    write.verdict existing now settings = write.ownVerdict existing now settings ∨
    ∃ record entry set, write = .ofRecord record entry.credibility ∧ existing = some entry ∧
      entry.finding = .present set ∧ write.verdict existing now settings =
        joinVerdict entry set record (expiry now record.ttl settings.maxLife) := by
  cases write with
  | ofSet set credibility => exact .inl rfl
  | ofAbsence name type ttl credibility => exact .inl rfl
  | ofRecord record credibility =>
    cases existing with
    | none => exact .inl rfl
    | some entry =>
      cases said : entry.finding with
      | absent type => exact .inl (by simp only [verdict, said])
      | present set =>
        by_cases same : entry.credibility = credibility
        · exact .inr ⟨record, entry, set, by rw [same], rfl, said, by
            simp only [verdict, said, if_pos same]⟩
        · exact .inl (by simp only [verdict, said, if_neg same])

/-- What a `write` changes: at most it keeps what it says, or joins what is known. -/
theorem verdict_cases (write : Write) (existing : Option Entry) (now : Duration)
    (settings : CacheSettings) :
    (write.verdict existing now settings).2 = .keep ∨
    (write.verdict existing now settings).2 = .remove ∨
    (∃ expireAt, expiry now write.ttl (write.most settings) = .ok expireAt ∧
      (write.verdict existing now settings).2 =
        .insert ⟨write.finding, write.credibility, expireAt⟩) ∨
    ∃ record entry set expireAt, write = .ofRecord record entry.credibility ∧
      existing = some entry ∧ entry.finding = .present set ∧
      (write.verdict existing now settings).2 = .replace (joined entry set record expireAt) ∧
      expireAt ≤ entry.expireAt ∧
      expireAt.nanos ≤ now.nanos + (lifetime record.ttl settings.maxLife).nanos := by
  obtain own | ⟨record, entry, set, rfl, rfl, said, join⟩ := write.verdict_eq existing now settings
  · rw [own]
    unfold ownVerdict
    split
    · exact .inl rfl
    split
    · cases existing with
      | none => exact .inl rfl
      | some entry => exact .inr (.inl rfl)
    · generalize expiry now write.ttl (write.most settings) = ended
      cases ended with
      | ok expireAt => exact .inr (.inr (.inl ⟨expireAt, rfl, rfl⟩))
      | error misuse => exact .inl rfl
  · refine .inr (.inr (.inr ?_))
    rw [join]
    obtain ⟨expireAt, ended, sum⟩ | ⟨ended, beyond⟩ := expiry_spec now record.ttl settings.maxLife
    · refine ⟨record, entry, set, min entry.expireAt expireAt, rfl, rfl, said, ?_, ?_, ?_⟩
      · rw [ended, joinVerdict]
      · show (min entry.expireAt expireAt).nanos ≤ _
        rw [nanos_min]
        omega
      · rw [nanos_min]
        omega
    · refine ⟨record, entry, set, entry.expireAt, rfl, rfl, said, ?_, Nat.le_refl _, ?_⟩
      · rw [ended, joinVerdict]
      · -- The life of the record is too long for the clock, and so longer than that of the entry.
        have bounded : entry.expireAt.nanos ≤ Duration.longest.nanos := entry.expireAt.le_longest
        omega

/-- A `write` does nothing where something more credible is known. -/
theorem verdict_of_blocked {write : Write} {entry : Entry}
    (blocked : write.credibility < entry.credibility) (now : Duration)
    (settings : CacheSettings) : write.verdict (some entry) now settings = (.ok (), .keep) := by
  obtain own | ⟨record, other, set, rfl, same, -⟩ := write.verdict_eq (some entry) now settings
  · rw [own, ownVerdict, if_pos (by simpa using blocked)]
  · obtain rfl := Option.some.inj same
    exact absurd blocked (Nat.lt_irrefl _)

end Write

end Cache

end NameResolution
