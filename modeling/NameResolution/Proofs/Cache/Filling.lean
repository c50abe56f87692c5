import NameResolution.Proofs.Cache.Runs

/-!
# What writes leave behind

Responses are kept by whole record sets, none of which joins what is known. What then counts for a
name and type is decided by the writes for them alone.

* `Cache.find?_performAll`: what is there after some writes was there before, or is the entry of
  one of them.
* `Cache.performAll_eq_ok`: writes that a cache accepts succeed if the clock goes far enough.
* `Cache.current?_performAll`: as long as there is room, what counts for a name and type is what the
  writes for them make of it one after the other.
* `Cache.exists_of_settleAll`, `Cache.exists_settleAll`: it is the entry of one of these writes, and
  no less credible than any of them.
-/

namespace NameResolution

namespace Cache

namespace Write

/-- The `Write` stands for all it says. It does not join what is known. -/
def IsWhole : Write → Prop
  | ofRecord .. => False
  | ofSet .. | ofAbsence .. => True

/-- How long the entry of a `write` lives. -/
def life (write : Write) (settings : CacheSettings) : Duration :=
  lifetime write.ttl (write.most settings)

/-- The `Entry` that a `write` makes. -/
def entryAt (write : Write) (now : Duration) (settings : CacheSettings) : Entry :=
  ⟨write.finding, write.credibility, now.saturatingAdd (write.life settings)⟩

/-- The clock can tell the end of the life of the entry that the `write` makes. -/
def Ends (write : Write) (now : Duration) (settings : CacheSettings) : Prop :=
  now.nanos + (write.life settings).nanos ≤ Duration.longest.nanos

/-- A clock that gets beyond the longest life is good for every `write`. -/
theorem ends_of_most {write : Write} {now : Duration} {settings : CacheSettings}
    (clock : now.nanos + (write.most settings).nanos ≤ Duration.longest.nanos) :
    write.Ends now settings := by
  unfold Ends life lifetime
  rw [nanos_min]
  omega

theorem bounded_of_ends {write : Write} {now : Duration} {settings : CacheSettings}
    (ends : write.Ends now settings) :
    now.nanos + (write.life settings).nanos < 0x10000000000000000 * 1000000000 :=
  Nat.lt_of_le_pred (by decide) ends

theorem nanos_expireAt_entryAt {write : Write} {now : Duration} {settings : CacheSettings}
    (ends : write.Ends now settings) :
    (write.entryAt now settings).expireAt.nanos = now.nanos + (write.life settings).nanos := by
  unfold entryAt Duration.saturatingAdd Duration.ofNanos
  rw [dif_pos (bounded_of_ends ends)]

theorem expiry_of_ends {write : Write} {now : Duration} {settings : CacheSettings}
    (ends : write.Ends now settings) :
    expiry now write.ttl (write.most settings) = .ok (write.entryAt now settings).expireAt := by
  have bounded := bounded_of_ends ends
  unfold life at bounded
  unfold expiry Duration.add? Duration.ofNanos? entryAt Duration.saturatingAdd Duration.ofNanos life
  rw [dif_pos bounded, dif_pos bounded]
  rfl

/-- Something with a time to live has a `life`. -/
theorem life_pos {write : Write} {settings : CacheSettings} (lasting : write.ttl ≠ 0)
    (most : 0 < (write.most settings).nanos) : 0 < (write.life settings).nanos := by
  have seconds : 0 < (Duration.ofSeconds write.ttl.toNat).nanos := by
    have positive : 0 < write.ttl.toNat :=
      Nat.pos_of_ne_zero fun zero => lasting (UInt32.toNat_inj.mp zero)
    unfold Duration.ofSeconds Duration.ofNanos
    split
    · exact Nat.mul_pos (by decide) positive
    · decide
  unfold life lifetime
  rw [nanos_min]
  omega

theorem verdict_of_whole {write : Write} (whole : write.IsWhole) (existing : Option Entry)
    (now : Duration) (settings : CacheSettings) :
    write.verdict existing now settings = write.ownVerdict existing now settings := by
  cases write with
  | ofRecord record credibility => cases whole
  | ofSet set credibility => rfl
  | ofAbsence name type ttl credibility => rfl

/-! ## Where entries come from -/

/-- What is there after a whole `write` was there before, or is the `entry` of this write. -/
theorem find?_perform_of_whole {write : Write} (whole : write.IsWhole) {now : Duration}
    {cache : Cache} {name : Name} {type : RecordType} {entry : Entry}
    (found : (write.perform now cache).2.find? name type = some entry) :
    cache.find? name type = some entry ∨ write.IsFor name type ∧
      entry.finding = write.finding ∧ entry.credibility = write.credibility := by
  obtain before | ⟨isFor, ⟨expireAt, -, rfl⟩ | ⟨record, old, set, expireAt, rfl, -⟩⟩ :=
    Write.find?_perform found
  · exact .inl before
  · exact .inr ⟨isFor, rfl, rfl⟩
  · cases whole

end Write

/-- What is there after whole `writes` was there before, or is the `entry` of one of them. -/
theorem find?_performAll {writes : List Write} (whole : ∀ write ∈ writes, write.IsWhole)
    {now : Duration} {cache : Cache} {name : Name} {type : RecordType} {entry : Entry}
    (found : (performAll now writes cache).2.find? name type = some entry) :
    cache.find? name type = some entry ∨ ∃ write ∈ writes, write.IsFor name type ∧
      entry.finding = write.finding ∧ entry.credibility = write.credibility := by
  refine performAll_keeps (fun after => ∀ entry, after.find? name type = some entry →
    cache.find? name type = some entry ∨ ∃ write ∈ writes, write.IsFor name type ∧
      entry.finding = write.finding ∧ entry.credibility = write.credibility)
    (fun write member after known entry found => ?_) (fun _ => .inl) entry found
  obtain before | made := Write.find?_perform_of_whole (whole write member) found
  · exact known entry before
  · exact .inr ⟨write, member, made⟩

/-! ## Writes that succeed -/

theorem Write.perform_eq_ok {write : Write} (whole : write.IsWhole)
    (accepted : write.refusal? = none) {now : Duration} {cache : Cache}
    (ends : write.Ends now cache.settings) : (write.perform now cache).1 = .ok () := by
  rw [write.perform_apply, accepted]
  simp only [Write.verdict_of_whole whole, Write.ownVerdict, Write.expiry_of_ends ends]
  split
  · rfl
  · split <;> rfl

/-- Writes that are accepted succeed if the clock can tell the ends of their lives. -/
theorem performAll_eq_ok {writes : List Write} {now : Duration} {cache : Cache}
    (whole : ∀ write ∈ writes, write.IsWhole)
    (accepted : ∀ write ∈ writes, write.refusal? = none)
    (ends : ∀ write ∈ writes, write.Ends now cache.settings) :
    (performAll now writes cache).1 = .ok () := by
  induction writes generalizing cache with
  | nil => rfl
  | cons write writes ih =>
    rw [List.forall_mem_cons] at whole accepted ends
    have first := Write.perform_eq_ok whole.1 accepted.1 ends.1
    have settings := write.settings_perform now cache
    rw [performAll, Op.bind_apply]
    rcases performed : write.perform now cache with ⟨misuse | _, middle⟩
    · rw [performed] at first
      cases first
    · rw [performed] at settings
      exact ih whole.2 accepted.2 (settings ▸ ends.2)

/-! ## What counts after writes -/

/-- What counts for a name and type after a `write` for them, by what counted before. -/
def Write.settle (write : Write) (now : Duration) (settings : CacheSettings)
    (existing : Option Entry) : Option Entry :=
  if existing.any (write.credibility < ·.credibility) then existing
  else some (write.entryAt now settings)

/-- The `write` keeps what it says unless something more credible counts: it stands for itself, it
is accepted, and it has a life that begins now and whose end the clock can tell. -/
structure Write.Lasts (write : Write) (now : Duration) (settings : CacheSettings) : Prop where
  whole : write.IsWhole
  accepted : write.refusal? = none
  ends : write.Ends now settings
  lives : 0 < (write.life settings).nanos

theorem Write.Lasts.ttl_ne_zero {write : Write} {now : Duration} {settings : CacheSettings}
    (lasts : write.Lasts now settings) : write.ttl ≠ 0 := by
  intro zero
  have none : (write.life settings).nanos = 0 := by
    unfold Write.life lifetime
    rw [zero, nanos_min]
    exact Nat.zero_min _
  exact Nat.ne_of_gt lasts.lives none

theorem Write.Lasts.counts {write : Write} {now : Duration} {settings : CacheSettings}
    (lasts : write.Lasts now settings) : ¬ (write.entryAt now settings).IsExpired now := by
  have sum := nanos_expireAt_entryAt lasts.ends
  have lives := lasts.lives
  refine Nat.not_le.mpr ?_
  omega

/-- What a lasting `write` does: it uses its `name`, and puts in its entry unless something more
credible counts. -/
theorem Write.Lasts.perform_eq {write : Write} {now : Duration} {cache : Cache}
    (lasts : write.Lasts now cache.settings) : write.perform now cache = (.ok (),
      if (cache.current? write.name write.type now).any (write.credibility < ·.credibility) then
        cache.sweep write.name write.type now
      else (cache.sweep write.name write.type now).insert write.name
        (write.entryAt now cache.settings)) := by
  rw [write.perform_apply, lasts.accepted]
  simp only [Write.verdict_of_whole lasts.whole, Write.ownVerdict, lasts.ttl_ne_zero, if_false,
    Write.expiry_of_ends lasts.ends]
  split <;> rfl

/-! ## Room -/

theorem evict_of_room {cache : Cache} (room : cache.size ≤ cache.settings.maxNames) :
    cache.evict = cache := by
  unfold evict
  rw [List.take_of_length_le room]

theorem size_touch_le (cache : Cache) (name : Name) : (cache.touch name).size ≤ cache.size := by
  unfold touch
  cases kept : cache.entries? name with
  | none => exact Nat.le_refl _
  | some entries =>
    have fewer : (cache.others name).length < cache.names.length :=
      List.length_filter_lt_length_iff_exists.mpr ⟨_, mem_of_entries? kept, by simp⟩
    exact fewer

theorem size_setEntries_le (cache : Cache) (name : Name) (entries : List Entry) :
    (cache.setEntries name entries).size ≤ cache.size := by
  unfold setEntries
  split
  · exact List.length_filter_le _ _
  · exact Nat.le_of_eq (List.length_map _)

theorem size_remove_le (cache : Cache) (name : Name) (type : RecordType) :
    (cache.remove name type).size ≤ cache.size := by
  unfold remove
  split
  · exact size_setEntries_le cache name _
  · exact Nat.le_refl _

theorem size_sweep_le (cache : Cache) (name : Name) (type : RecordType) (now : Duration) :
    (cache.sweep name type now).size ≤ cache.size := by
  obtain ⟨swept, -⟩ | ⟨swept, -⟩ := cache.sweep_eq name type now
  · rw [swept]
    exact size_touch_le cache name
  · rw [swept]
    exact Nat.le_trans (size_remove_le _ name type) (size_touch_le cache name)

theorem size_place_le (cache : Cache) (name : Name) (entry : Entry) :
    (cache.place name entry).size ≤ cache.size + 1 := by
  unfold place
  split
  · exact Nat.le_succ_of_le (Nat.le_trans (size_setEntries_le _ name _) (size_touch_le cache name))
  · exact Nat.le_refl _

theorem size_replace_le (cache : Cache) (name : Name) (entry : Entry) :
    (cache.replace name entry).size ≤ cache.size := by
  unfold replace
  split
  · exact size_setEntries_le cache name _
  · exact Nat.le_refl _

/-- A `change` takes room for one more `name` at most. -/
theorem Change.size_apply_le (name : Name) (type : RecordType) (change : Change) (cache : Cache) :
    (change.apply name type cache).size ≤ cache.size + 1 := by
  cases change with
  | keep => exact Nat.le_succ _
  | remove => exact Nat.le_succ_of_le (size_remove_le cache name type)
  | replace entry => exact Nat.le_succ_of_le (size_replace_le cache name entry)
  | insert entry => exact Nat.le_trans (List.length_take_le' _ _) (size_place_le cache name entry)

/-- A `change` keeps to the limit. -/
theorem Change.room_apply (name : Name) (type : RecordType) (change : Change) {cache : Cache}
    (room : cache.size ≤ cache.settings.maxNames) :
    (change.apply name type cache).size ≤ cache.settings.maxNames := by
  cases change with
  | keep => exact room
  | remove => exact Nat.le_trans (size_remove_le cache name type) room
  | replace entry => exact Nat.le_trans (size_replace_le cache name entry) room
  | insert entry =>
    have most : (cache.place name entry).evict.size ≤ (cache.place name entry).settings.maxNames :=
      List.length_take_le _ _
    rwa [settings_place] at most

theorem Write.size_perform_le (write : Write) (now : Duration) (cache : Cache) :
    (write.perform now cache).2.size ≤ cache.size + 1 := by
  rw [write.perform_apply]
  split
  · exact Nat.le_succ _
  · exact Nat.le_trans (Change.size_apply_le _ _ _ _)
      (Nat.succ_le_succ (size_sweep_le cache _ _ now))

/-- A `write` keeps to the limit. -/
theorem Write.room_perform (write : Write) (now : Duration) {cache : Cache}
    (room : cache.size ≤ cache.settings.maxNames) :
    (write.perform now cache).2.size ≤ (write.perform now cache).2.settings.maxNames := by
  rw [write.settings_perform, write.perform_apply]
  split
  · exact room
  · have swept := settings_sweep cache write.name write.type now
    have room : (cache.sweep write.name write.type now).size ≤
        (cache.sweep write.name write.type now).settings.maxNames := by
      rw [swept]
      exact Nat.le_trans (size_sweep_le cache _ _ now) room
    have fits := Change.room_apply write.name write.type (write.verdict (cache.current? write.name
      write.type now) now cache.settings).2 room
    rwa [swept] at fits

theorem current?_sweep (cache : Cache) (name : Name) (type : RecordType) (now : Duration)
    (other : Name) (asked : RecordType) :
    (cache.sweep name type now).current? other asked now = cache.current? other asked now := by
  rw [current?, find?_sweep]
  split
  · rename_i same
    rw [← current?_congr cache same.1, same.2, current?, Option.filter_filter]
    simp
  · rfl

theorem current?_insert {cache : Cache} (room : cache.size < cache.settings.maxNames) (name : Name)
    {entry : Entry} {now : Duration} (counts : ¬ entry.IsExpired now) (other : Name)
    (asked : RecordType) :
    (cache.insert name entry).current? other asked now =
      if other.fold = name.fold ∧ asked = entry.type then some entry
      else cache.current? other asked now := by
  have fits : (cache.place name entry).size ≤ (cache.place name entry).settings.maxNames := by
    have grown := size_place_le cache name entry
    rw [settings_place]
    omega
  rw [Cache.insert, evict_of_room fits, current?, find?_place]
  split
  · simp [Option.filter, counts]
  · rfl

/-- A lasting `write` that finds `room` changes what counts for its own `name` and `type` only. -/
theorem Write.Lasts.current?_perform {write : Write} {now : Duration} {cache : Cache}
    (lasts : write.Lasts now cache.settings) (room : cache.size < cache.settings.maxNames)
    (name : Name) (type : RecordType) :
    (write.perform now cache).2.current? name type now =
      if write.IsFor name type then
        write.settle now cache.settings (cache.current? name type now)
      else cache.current? name type now := by
  have room : (cache.sweep write.name write.type now).size <
      (cache.sweep write.name write.type now).settings.maxNames := by
    have swept := size_sweep_le cache write.name write.type now
    rw [settings_sweep]
    omega
  have kind : (write.entryAt now cache.settings).type = write.type := write.type_finding _ _
  rw [lasts.perform_eq]
  by_cases isFor : write.IsFor name type
  · have same : cache.current? write.name write.type now = cache.current? name type now := by
      rw [current?_congr cache isFor.1, isFor.2]
    rw [if_pos isFor, Write.settle, same]
    -- The write gives way to something more credible, or it takes the place.
    by_cases blocked : (cache.current? name type now).any (write.credibility < ·.credibility) = true
    · rw [if_pos blocked, if_pos blocked, current?_sweep]
    · rw [if_neg blocked, if_neg blocked, current?_insert room write.name lasts.counts,
        if_pos ⟨isFor.1.symm, by rw [kind, isFor.2]⟩]
  · rw [if_neg isFor]
    split
    · exact current?_sweep ..
    · rw [current?_insert room write.name lasts.counts, current?_sweep, if_neg]
      exact fun same => isFor ⟨same.1.symm, by rw [same.2, kind]⟩

theorem Write.Lasts.performAll_cons {write : Write} {now : Duration} {cache : Cache}
    (lasts : write.Lasts now cache.settings) (writes : List Write) :
    performAll now (write :: writes) cache = performAll now writes (write.perform now cache).2 := by
  rw [performAll, Op.bind_apply, lasts.perform_eq]

/-- Each `write` takes room for one more name at most. -/
theorem size_performAll_le {writes : List Write} {now : Duration} {cache : Cache}
    (lasting : ∀ write ∈ writes, write.Lasts now cache.settings) :
    (performAll now writes cache).2.size ≤ cache.size + writes.length := by
  induction writes generalizing cache with
  | nil => exact Nat.le_refl _
  | cons write writes ih =>
    rw [List.forall_mem_cons] at lasting
    have grown := write.size_perform_le now cache
    have rest := @ih (write.perform now cache).2 (by rw [write.settings_perform]; exact lasting.2)
    rw [lasting.1.performAll_cons, List.length_cons]
    omega

/-- What counts for a name and type after some `writes` for them, by what counted before. -/
def settleAll (now : Duration) (settings : CacheSettings) (existing : Option Entry)
    (writes : List Write) : Option Entry :=
  writes.foldl (fun existing write => write.settle now settings existing) existing

/-- As long as there is `room`, what counts for a `name` and `type` is what the `writes` for them
make of it, one after the other. -/
theorem current?_performAll {writes : List Write} {now : Duration} {cache : Cache}
    (lasting : ∀ write ∈ writes, write.Lasts now cache.settings)
    (room : cache.size + writes.length ≤ cache.settings.maxNames) (name : Name)
    (type : RecordType) :
    (performAll now writes cache).2.current? name type now =
      settleAll now cache.settings (cache.current? name type now)
        (writes.filter (·.IsFor name type)) := by
  induction writes generalizing cache with
  | nil => rfl
  | cons write writes ih =>
    rw [List.forall_mem_cons] at lasting
    rw [List.length_cons] at room
    have settings := write.settings_perform now cache
    have grown := write.size_perform_le now cache
    rw [lasting.1.performAll_cons, ih (settings ▸ lasting.2) (by rw [settings]; omega), settings,
      lasting.1.current?_perform (by omega), List.filter_cons]
    by_cases isFor : write.IsFor name type <;> simp [isFor, settleAll]

/-- A `write` gives way to something more credible, or takes the place of what counted. -/
theorem Write.settle_cases (write : Write) (now : Duration) (settings : CacheSettings)
    (existing : Option Entry) :
    (∃ old, existing = some old ∧ write.credibility < old.credibility ∧
      write.settle now settings existing = some old) ∨
    (∀ old, existing = some old → old.credibility ≤ write.credibility) ∧
      write.settle now settings existing = some (write.entryAt now settings) := by
  unfold Write.settle
  cases existing with
  | none => exact .inr ⟨by simp, rfl⟩
  | some old =>
    by_cases blocked : write.credibility < old.credibility
    · exact .inl ⟨old, rfl, blocked, by simp [blocked]⟩
    · refine .inr ⟨fun other same => ?_, by simp [blocked]⟩
      obtain rfl := Option.some.inj same
      exact Nat.not_lt.mp blocked

/-- What counts in the end counted before, or it is the `entry` of one of the `writes`. -/
theorem exists_of_settleAll {now : Duration} {settings : CacheSettings} {existing : Option Entry}
    {writes : List Write} {entry : Entry}
    (settled : settleAll now settings existing writes = some entry) :
    existing = some entry ∨ ∃ write ∈ writes, entry = write.entryAt now settings := by
  induction writes generalizing existing with
  | nil => exact .inl settled
  | cons write writes ih =>
    obtain before | ⟨later, member, is⟩ := ih settled
    · obtain ⟨old, known, -, kept⟩ | ⟨-, made⟩ := write.settle_cases now settings existing
      · exact .inl (known.trans (kept.symm.trans before))
      · exact .inr ⟨write, List.mem_cons_self, Option.some.inj (before.symm.trans made)⟩
    · exact .inr ⟨later, List.mem_cons_of_mem _ member, is⟩

/-- What counts is only ever replaced by something that is no less credible than the `old` entry. -/
theorem settleAll_some (now : Duration) (settings : CacheSettings) (old : Entry)
    (writes : List Write) : ∃ entry, settleAll now settings (some old) writes = some entry ∧
      old.credibility ≤ entry.credibility := by
  induction writes generalizing old with
  | nil => exact ⟨old, rfl, Nat.le_refl _⟩
  | cons write writes ih =>
    show ∃ entry, settleAll now settings (write.settle now settings (some old)) writes = _ ∧ _
    obtain ⟨_, ⟨⟩, -, kept⟩ | ⟨least, made⟩ := write.settle_cases now settings (some old)
    · rw [kept]
      exact ih old
    · obtain ⟨entry, is, most⟩ := ih (write.entryAt now settings)
      exact ⟨entry, made ▸ is, Nat.le_trans (least old rfl) most⟩

/-- What counts in the end is no less credible than any of the `writes`. -/
theorem exists_settleAll {now : Duration} {settings : CacheSettings} {existing : Option Entry}
    {writes : List Write} {write : Write} (member : write ∈ writes) :
    ∃ entry, settleAll now settings existing writes = some entry ∧
      write.credibility ≤ entry.credibility := by
  induction writes generalizing existing with
  | nil => cases member
  | cons first writes ih =>
    obtain rfl | later := List.mem_cons.mp member
    · show ∃ entry, settleAll now settings (write.settle now settings existing) writes = _ ∧ _
      obtain ⟨old, -, less, kept⟩ | ⟨-, made⟩ := write.settle_cases now settings existing
      · obtain ⟨entry, is, most⟩ := settleAll_some now settings old writes
        exact ⟨entry, kept ▸ is, Nat.le_trans (Nat.le_of_lt less) most⟩
      · rw [made]
        exact settleAll_some now settings (write.entryAt now settings) writes
    · exact ih later

end Cache

end NameResolution
