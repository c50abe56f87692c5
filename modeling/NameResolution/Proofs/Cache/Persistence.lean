import NameResolution.Proofs.Cache.Eviction

/-!
# How long a write stays readable

* `Cache.Action.Spares`: what an action must not do to an entry: write something for its name and
  type that is as credible, flush it, or evict its name.
* `Cache.Scene.Holds`: what is true of an entry as long as it is spared. `Cache.Scene.Holds.after`:
  an action that spares the entry keeps this; `Cache.Scene.Holds.run`: so does every run.
* `Cache.Scene.readable_until_expiry`: what was written is found until its life ends, and not after
  that.
-/

namespace NameResolution

namespace Cache

/-- A record `set` is added, or the absence of records as said along with an SOA `record`. -/
inductive Action.Stores : Action → Write → Prop
  | set (set : RecordSet) (credibility : Credibility) :
    Stores (.addSet set credibility) (.ofSet set credibility)
  | negative (name : Name) (type : RecordType) (record : Record) (soa : Soa)
    (credibility : Credibility) (is : record.data = .soa soa) :
    Stores (.addNegative name type (some record) credibility)
      (.ofAbsence name type (min record.ttl soa.minimum) credibility)

/-- What is known of a `name` and `type` is flushed. -/
def Action.Flushes (name : Name) (type : RecordType) : Action → Prop
  | .flushName other => other.fold = name.fold
  | .flushSet other kind => other.fold = name.fold ∧ kind = type
  | .clear => True
  | _ => False

/-- An `action` leaves alone what is known of a `name` and `type` with some `credibility`: all that
is written for them is less credible, they are not flushed, and the name is not evicted. -/
structure Action.Spares (action : Action) (scene : Scene) (name : Name) (type : RecordType)
    (credibility : Credibility) : Prop where
  below : ∀ write ∈ action.writes, write.IsFor name type → write.credibility < credibility
  unflushed : ¬ action.Flushes name type
  kept : ¬ action.Evicts scene.now scene.cache name

/-- The life of what is written in a `scene` ends at this instant, in nanoseconds. -/
def Write.deadline (write : Write) (scene : Scene) : Nat :=
  scene.now.nanos + (lifetime write.ttl (write.most scene.cache.settings)).nanos

/-- The `scene` occurs in a `run` of a cache that starts empty. Its settings come from the
setters. -/
def Scene.Reachable (scene : Scene) : Prop := ∃ actions, (start .default).run actions = scene

/-- Each of some `actions` meets a `condition` in the `scene` in which it happens. -/
def Scene.Along (condition : Scene → Action → Prop) (scene : Scene) : List Action → Prop
  | [] => True
  | action :: actions => condition scene action ∧ (scene.after action).Along condition actions

/-- The `entry` is there until its life ends, and no other one is there in its place. -/
structure Scene.Holds (scene : Scene) (name : Name) (type : RecordType) (entry : Entry) : Prop where
  wellFormed : scene.cache.WellFormed
  kept : ¬ entry.IsExpired scene.now → scene.cache.find? name type = some entry
  only : ∀ other, scene.cache.find? name type = some other → other = entry

/-! ## One action -/

/-- An `entry` that counts is still there after an `action` that spares it. -/
theorem Action.Effect.find?_of_current {action : Action} {now : Duration} {before after : Cache}
    (effect : action.Effect now before after) (shape : before.WellFormed) {name : Name}
    {type : RecordType} {entry : Entry} (counts : before.current? name type now = some entry)
    (spares : action.Spares ⟨before, now⟩ name type entry.credibility) :
    after.find? name type = some entry := by
  obtain ⟨found, alive⟩ := current?_eq_some.1 counts
  have kept := spares.kept
  rw [Action.Evicts, not_or] at kept
  cases effect with
  | writes => exact find?_performAll_of_current alive spares.below shape found kept.2
  | reads asked kind least is => exact find?_lookup_of_current is shape counts kept.1
  | flushName other is =>
    rw [find?_removeName, if_neg, found]
    rintro same
    exact spares.unflushed (by rw [is]; exact same.symm)
  | flushSet other kind is =>
    rw [find?_remove, if_neg, found]
    rintro ⟨same, kinds⟩
    exact spares.unflushed (by rw [is]; exact ⟨same.symm, kinds.symm⟩)
  | clear is => exact absurd (by rw [is]; trivial) spares.unflushed
  | configures settings room => exact found

/-- Without anything written for a `name` and `type`, nothing new is there. -/
theorem Action.Effect.find?_of_untouched {action : Action} {now : Duration} {before after : Cache}
    (effect : action.Effect now before after) (shape : before.WellFormed) {name : Name}
    {type : RecordType} (untouched : ∀ write ∈ action.writes, ¬ write.IsFor name type)
    {entry : Entry} (found : after.find? name type = some entry) :
    before.find? name type = some entry := by
  obtain rfl | known := effect.writes_or_known shape
  · refine performAll_keeps (fun cache => ∀ entry, cache.find? name type = some entry →
      before.find? name type = some entry) (fun write member cache known entry found => ?_)
      (fun _ => id) entry found
    obtain same | ⟨isFor, -⟩ := Write.find?_perform found
    · exact known entry same
    · exact absurd isFor (untouched write member)
  · exact known name type entry found

/-- An `action` that spares an `entry`, and writes nothing for its `name` and `type` once its life
has ended, keeps it until then. -/
theorem Scene.Holds.after {scene : Scene} {name : Name} {type : RecordType} {entry : Entry}
    (holds : scene.Holds name type entry) {action : Action}
    (spares : action.Spares scene name type entry.credibility)
    (untouched : entry.IsExpired scene.now → ∀ write ∈ action.writes, ¬ write.IsFor name type) :
    (scene.after action).Holds name type entry := by
  have effect := action.effect_operate scene.now scene.cache
  refine ⟨effect.wellFormed holds.wellFormed, fun alive => ?_, fun other found => ?_⟩
  · have alive' : ¬ entry.IsExpired scene.now := fun expired =>
      alive (Nat.le_trans expired (scene.now_le_now_after action))
    exact effect.find?_of_current holds.wellFormed
      (current?_eq_some.2 ⟨holds.kept alive', alive'⟩) spares
  · by_cases expired : entry.IsExpired scene.now
    · exact holds.only other
        (effect.find?_of_untouched holds.wellFormed (untouched expired) found)
    · have stays := effect.find?_of_current holds.wellFormed
        (current?_eq_some.2 ⟨holds.kept expired, expired⟩) spares
      exact Option.some.inj (found.symm.trans stays)

/-! ## Runs -/

/-- What is spared in every step of a `run` is there until its life ends. -/
theorem Scene.Holds.run {scene : Scene} {name : Name} {type : RecordType} {entry : Entry}
    (holds : scene.Holds name type entry) {actions : List Action}
    (spared : scene.Along (fun scene action => action.Spares scene name type entry.credibility)
      actions)
    (untouched : scene.Along (fun scene action => entry.IsExpired scene.now →
      ∀ write ∈ action.writes, ¬ write.IsFor name type) actions) :
    (scene.run actions).Holds name type entry := by
  induction actions generalizing scene with
  | nil => exact holds
  | cons action actions ih => exact ih (holds.after spared.1 untouched.1) spared.2 untouched.2

theorem Scene.now_le_now_run (scene : Scene) (actions : List Action) :
    scene.now ≤ (scene.run actions).now := by
  induction actions generalizing scene with
  | nil => exact Nat.le_refl _
  | cons action actions ih => exact Nat.le_trans (scene.now_le_now_after action) (ih _)

/-- What is only asked for after an `instant` is given as long as this has not come. -/
theorem Scene.along_of_early {scene : Scene} {actions : List Action} {instant : Duration}
    {condition : Scene → Action → Prop} (early : ¬ instant ≤ (scene.run actions).now) :
    scene.Along (fun scene action => instant ≤ scene.now → condition scene action) actions := by
  induction actions generalizing scene with
  | nil => trivial
  | cons action actions ih =>
    refine ⟨fun late => absurd ?_ early, ih early⟩
    exact Nat.le_trans late (scene.now_le_now_run (action :: actions))

theorem Scene.Reachable.wellFormed {scene : Scene} (reachable : scene.Reachable) :
    scene.cache.WellFormed := by
  obtain ⟨actions, rfl⟩ := reachable
  exact wellFormed_run (wellFormed_empty _) actions

theorem Scene.Reachable.room {scene : Scene} (reachable : scene.Reachable) :
    0 < scene.cache.settings.maxNames := by
  obtain ⟨actions, rfl⟩ := reachable
  exact room_run (wellFormed_empty _) (by decide) actions

/-! ## The write itself -/

theorem names_place (cache : Cache) (name : Name) (entry : Entry) :
    ∃ entries rest, (cache.place name entry).names = (name.fold, entries) :: rest := by
  unfold place
  cases kept : cache.entries? name with
  | none => exact ⟨_, _, rfl⟩
  | some entries =>
    have front := names_touch kept
    have nonempty : (putEntry entries entry).isEmpty = false := by
      have found := find?_putEntry entries entry entry.type
      rw [if_pos rfl] at found
      cases put : putEntry entries entry with
      | nil => simp [put] at found
      | cons first rest => rfl
    simp only
    rw [setEntries_of_front front nonempty]
    exact ⟨_, _, rfl⟩

/-- An `entry` that is put in is within the limit. -/
theorem find?_insert_self {cache : Cache} (shape : cache.WellFormed)
    (room : 0 < cache.settings.maxNames) (name : Name) (entry : Entry) :
    (cache.insert name entry).find? name entry.type = some entry := by
  have within : name.fold ∉ (cache.place name entry).excess := by
    obtain ⟨entries, rest, names⟩ := names_place cache name entry
    have distinct := (shape.place name entry).distinct
    rw [names, List.map_cons, List.nodup_cons] at distinct
    intro beyond
    obtain ⟨item, dropped, same⟩ := List.mem_map.1 beyond
    obtain ⟨limit, more⟩ := Nat.exists_eq_succ_of_ne_zero (Nat.ne_of_gt room)
    rw [settings_place, more, names, List.drop_succ_cons] at dropped
    exact distinct.1 (List.mem_map.2 ⟨item, List.mem_of_mem_drop dropped, same⟩)
  rw [Cache.insert, find?_evict _ within, find?_place, if_pos ⟨rfl, rfl⟩]

/-- An `action` that stores something, which nothing more credible stands in the way of, fails only
if the clock cannot tell the end of its life. -/
theorem Action.Stores.operate_eq {scene : Scene} {action : Action} {write : Write}
    (stores : action.Stores write) (lasting : write.ttl ≠ 0) (ordinary : ¬ write.type.IsQueryOnly)
    (absolute : write.name.absolute = true)
    (unrivalled : ∀ entry, scene.cache.current? write.name write.type scene.now = some entry →
      entry.credibility ≤ write.credibility) :
    action.operate scene.now scene.cache =
      match expiry scene.now write.ttl (write.most scene.cache.settings) with
      | .ok expireAt => (.ok (), (scene.cache.sweep write.name write.type scene.now).insert
          write.name ⟨write.finding, write.credibility, expireAt⟩)
      | .error misuse => (.error misuse, scene.cache.sweep write.name write.type scene.now) := by
  have performs : action.operate scene.now scene.cache = write.perform scene.now scene.cache := by
    cases stores with
    | set set credibility => rfl
    | negative name type record soa credibility is =>
      obtain ⟨owner, recordClass, ttl, data⟩ := record
      obtain rfl : data = .soa soa := is
      rfl
  have accepted : write.refusal? = none := by
    cases stores with
    | set set credibility => exact if_neg ordinary
    | negative name type record soa credibility is => exact if_pos absolute
  -- Neither kind of write joins what is known.
  have own : write.verdict (scene.cache.current? write.name write.type scene.now) scene.now
      scene.cache.settings = write.ownVerdict (scene.cache.current? write.name write.type
        scene.now) scene.now scene.cache.settings := by
    cases stores <;> rfl
  have unblocked : (scene.cache.current? write.name write.type scene.now).any
      (write.credibility < ·.credibility) = false := by
    cases existing : scene.cache.current? write.name write.type scene.now with
    | none => rfl
    | some entry =>
      have weaker : ¬ write.credibility < entry.credibility :=
        Nat.not_lt.2 (unrivalled entry existing)
      simpa using weaker
  rw [performs, write.perform_apply, accepted]
  simp only [own, Write.ownVerdict, unblocked, Bool.false_eq_true, if_false, lasting]
  cases expiry scene.now write.ttl (write.most scene.cache.settings) <;> rfl

/-- The entry that a `write` stores is there after it. -/
theorem Scene.holds_of_stores {scene : Scene} (reachable : scene.Reachable) {action : Action}
    {write : Write} {expireAt : Duration}
    (done : (action.operate scene.now scene.cache).2 =
      (scene.cache.sweep write.name write.type scene.now).insert write.name
        ⟨write.finding, write.credibility, expireAt⟩) :
    (scene.after action).Holds write.name write.type
      ⟨write.finding, write.credibility, expireAt⟩ := by
  have shape := reachable.wellFormed.sweep write.name write.type scene.now
  have found := find?_insert_self shape
    (by rw [settings_sweep]; exact reachable.room) write.name
    ⟨write.finding, write.credibility, expireAt⟩
  rw [write.type_finding] at found
  have now : (scene.after action).cache = (scene.cache.sweep write.name write.type
      scene.now).insert write.name ⟨write.finding, write.credibility, expireAt⟩ := done
  refine ⟨?_, fun _ => by rw [now, found], fun other there => ?_⟩
  · rw [now]
    exact shape.insert _ _
  · rw [now, found] at there
    exact (Option.some.inj there).symm

/-! ## Reading what was written -/

theorem toNat_ttlAt {entry : Entry} {now : Duration} (ttl : UInt32)
    (short : entry.expireAt.nanos - now.nanos ≤ ttl.toNat * Duration.second) :
    (entry.ttlAt now).toNat = (entry.expireAt.nanos - now.nanos) / Duration.second := by
  have bounded := ttl.toNat_lt
  have few : (entry.expireAt.nanos - now.nanos) / Duration.second ≤ ttl.toNat :=
    Nat.div_le_of_le_mul (by rw [Nat.mul_comm]; exact short)
  have kept : min ((entry.expireAt.saturatingSub now).seconds) 0xFFFFFFFF =
      (entry.expireAt.nanos - now.nanos) / Duration.second :=
    Nat.min_eq_left (by
      show (entry.expireAt.nanos - now.nanos) / Duration.second ≤ _
      omega)
  unfold Entry.ttlAt
  rw [kept, UInt32.toNat_ofNat', Nat.mod_eq_of_lt (by omega)]

theorem nanos_lifetime_le (ttl : UInt32) (most : Duration) :
    (lifetime ttl most).nanos ≤ ttl.toNat * Duration.second := by
  have bounded := ttl.toNat_lt
  unfold lifetime
  rw [nanos_min]
  refine Nat.le_trans (Nat.min_le_left _ _) ?_
  unfold Duration.ofSeconds Duration.ofNanos
  split
  · exact Nat.le_of_eq (Nat.mul_comm _ _)
  · rename_i long
    simp only [Duration.second] at long
    omega

section

variable {scene : Scene} {entry : Entry} {owner name : Name} {type : RecordType}

/-- What is there and counts is found by a `lookup` that does not evict its `name`. -/
theorem Scene.Holds.lookup_eq (holds : scene.Holds owner type entry)
    (alive : ¬ entry.IsExpired scene.now) (same : name.fold = owner.fold)
    (absolute : name.absolute = true) (single : type ≠ .any) {least : Credibility}
    (credible : least ≤ entry.credibility)
    (kept : ¬ (Action.lookup name type least).Evicts scene.now scene.cache owner) :
    (lookup name type least scene.now scene.cache).1 = .ok (match entry.finding with
      | .present set => .successful [{ set with ttl := entry.ttlAt scene.now }]
      | .absent _ => .nxRrset) := by
  have counts := current?_eq_some.2 ⟨holds.kept alive, alive⟩
  have reads (cache : Cache) :
      ((Action.lookup name type least).operate scene.now cache).2 =
        (lookup name type least scene.now cache).2 := by
    simp only [Action.operate, bind_pure_comp, Op.map_apply]
  rw [Action.Evicts, not_or] at kept
  have within := not_mem_excess_of_lookup absolute reads holds.wellFormed counts kept.1
  have found : scene.cache.evict.current? name type scene.now = some entry := by
    rw [current?_congr _ same, current?, find?_evict _ within]
    exact counts
  rw [lookup_of_current absolute single found credible]
  unfold Entry.setAt?
  cases entry.finding <;> rfl

/-- An entry that `IsExpired` no longer counts, so a lookup misses it. -/
theorem Scene.Holds.lookup_misses (holds : scene.Holds owner type entry)
    (expired : entry.IsExpired scene.now) (same : name.fold = owner.fold)
    (absolute : name.absolute = true) (single : type ≠ .any) (least : Credibility) :
    ∃ found, (lookup name type least scene.now scene.cache).1 = .ok found ∧ found.Misses := by
  refine lookup_of_not_current absolute single least ?_
  rw [current?_congr _ same]
  cases counts : scene.cache.evict.current? owner type scene.now with
  | none => rfl
  | some other =>
    obtain ⟨found, alive⟩ := current?_eq_some.1 counts
    obtain rfl := holds.only other (find?_evict_eq_some _ found)
    exact absurd expired alive

end

/-- What was written stays readable until its life ends. In every `Reachable` scene, let an action
that `Stores` a record set or the absence of records, with some time to live, be taken while nothing
more credible counts for its name and type. It is accepted as long as the clock can tell the end of
its life, `Write.deadline`. Let there be any further actions, each of which `Spares` it: none writes
something as credible for the name and type, flushes them or evicts the name. Before the deadline, a
`lookup` that does not evict the name itself finds what was written: the records with the whole
seconds that are left, or that there are none. From then on, unless something has been written for
the name and type meanwhile, it `Misses` both. -/
theorem Scene.readable_until_expiry {scene last : Scene} (reachable : scene.Reachable)
    {action : Action} {write : Write} (stores : action.Stores write) (lasting : write.ttl ≠ 0)
    (ordinary : ¬ write.type.IsQueryOnly)
    (unrivalled : ∀ entry, scene.cache.current? write.name write.type scene.now = some entry →
      entry.credibility ≤ write.credibility)
    {later : List Action} (spared : (scene.after action).Along
      (fun scene action => action.Spares scene write.name write.type write.credibility) later)
    (ends : (scene.after action).run later = last) {name : Name}
    (same : (name == write.name) = true) (absolute : name.absolute = true)
    (least : Credibility) :
    ((action.operate scene.now scene.cache).1 = .ok () ↔
      write.deadline scene ≤ Duration.longest.nanos) ∧
    ((action.operate scene.now scene.cache).1 = .ok () →
      last.now.nanos < write.deadline scene → least ≤ write.credibility →
      ¬ (Action.lookup name write.type least).Evicts last.now last.cache write.name →
      ∃ left : UInt32,
        left.toNat = (write.deadline scene - last.now.nanos) / Duration.second ∧
        (lookup name write.type least last.now last.cache).1 = .ok (match write.finding with
          | .present set => .successful [{ set with ttl := left }]
          | .absent _ => .nxRrset)) ∧
    (write.deadline scene ≤ last.now.nanos →
      (scene.after action).Along (fun during action => write.deadline scene ≤ during.now.nanos →
        ∀ other ∈ action.writes, ¬ other.IsFor write.name write.type) later →
      ∃ found, (lookup name write.type least last.now last.cache).1 = .ok found ∧
        found.Misses) := by
  have owner : name.fold = write.name.fold := Name.beq_iff.1 same
  have absolute' : write.name.absolute = true := by
    rw [← Name.absolute_fold, ← owner, Name.absolute_fold, absolute]
  have single : write.type ≠ .any := fun any => ordinary (by rw [any]; decide)
  have operates := stores.operate_eq lasting ordinary absolute' unrivalled
  obtain ⟨expireAt, ended, sum⟩ | ⟨refused, beyond⟩ :=
    expiry_spec scene.now write.ttl (write.most scene.cache.settings)
  case inr =>
    -- nothing is stored, and the clock never gets to the end of its life
    rw [refused] at operates
    have bounded : last.now.nanos ≤ Duration.longest.nanos := last.now.le_longest
    refine ⟨?_, fun accepted => ?_, fun late => ?_⟩
    · simp [operates, Write.deadline, beyond]
    · simp [operates] at accepted
    · unfold Write.deadline at late
      omega
  rw [ended] at operates
  have holds := holds_of_stores reachable (congrArg Prod.snd operates)
  have fits : write.deadline scene ≤ Duration.longest.nanos := by
    show scene.now.nanos + _ ≤ _
    rw [← sum]
    exact expireAt.le_longest
  refine ⟨iff_of_true (congrArg Prod.fst operates) fits, fun _ early credible kept => ?_,
    fun late untouched => ?_⟩
  · have alive : ¬ expireAt ≤ last.now := by
      refine Nat.not_le.2 ?_
      rw [sum]
      exact early
    have stays := holds.run spared (along_of_early (by rwa [ends]))
    rw [ends] at stays
    have began : scene.now.nanos ≤ last.now.nanos := by
      rw [← ends]
      exact Nat.le_trans (scene.now_le_now_after action) (now_le_now_run _ later)
    have short := nanos_lifetime_le write.ttl (write.most scene.cache.settings)
    refine ⟨_, ?_, stays.lookup_eq alive owner absolute single credible kept⟩
    rw [Write.deadline, ← sum]
    refine toNat_ttlAt write.ttl ?_
    show expireAt.nanos - last.now.nanos ≤ _
    omega
  · rw [Write.deadline, ← sum] at late
    have stays := holds.run spared (by rwa [Write.deadline, ← sum] at untouched)
    rw [ends] at stays
    exact stays.lookup_misses late owner absolute single least

/-- The `address` of a host. -/
def address (last : UInt8) : RecordSet :=
  ⟨⟨[⟨[104], by decide, by decide⟩], true, by decide⟩, .internet, 60,
    .a (.ofOctets 192 0 2 last), []⟩

/-- Ten seconds, in the `meanwhile` of which another address comes from a less credible source. -/
def meanwhile : List Action :=
  [.addSet (address 2) .nonAuthAnswer, .advance (.ofSeconds 10), .findRecords (address 1).owner .a]

theorem Scene.readable_until_expiry_address :
    let last := ((start .default).after (.addSet (address 1) .authAnswer)).run meanwhile
    ∃ left : UInt32, left.toNat = 50 ∧
      (lookup (address 1).owner .a .normal last.now last.cache).1 =
        .ok (.successful [{ address 1 with ttl := left }]) := by
  intro last
  -- A name that is still there has not been evicted on the whole.
  have stays (action : Action) (cache : Cache) (now : Duration) (name : Name)
      (kept : ((action.operate now cache).2.entries? name).isSome)
      (writes : ¬ WritesEvict now name action.writes cache) :
      ¬ action.Evicts now cache name := by
    rintro (⟨gone, -⟩ | evicts)
    · simp [gone] at kept
    · exact writes evicts
  have spared : ((start .default).after (.addSet (address 1) .authAnswer)).Along
      (fun scene action => action.Spares scene (address 1).owner .a .authAnswer) meanwhile := by
    refine ⟨⟨?_, id, stays _ _ _ _ rfl ?_⟩, ⟨?_, id, stays _ _ _ _ rfl id⟩,
      ⟨?_, id, stays _ _ _ _ rfl id⟩, trivial⟩
    · intro write member _
      obtain rfl := List.mem_singleton.1 member
      decide
    · rintro (⟨gone, -⟩ | later)
      · cases gone
      · exact later
    · exact fun write member => absurd member List.not_mem_nil
    · exact fun write member => absurd member List.not_mem_nil
  have reachable : (start .default).Reachable := ⟨[], rfl⟩
  have same : ((address 1).owner == (address 1).owner) = true := rfl
  obtain ⟨accepted, early, -⟩ := readable_until_expiry reachable (.set (address 1) .authAnswer)
    (by decide) (by decide) (fun entry existing => by cases existing) spared rfl same rfl .normal
  exact early (accepted.2 (by decide)) (by decide) (by decide) (stays _ _ _ _ rfl id)

end Cache

end NameResolution
