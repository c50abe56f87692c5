import NameResolution.Proofs.Cache.Runs

/-!
# Where found data comes from

* `Cache.Offer`: something that was added to a cache, with the time and the limit on lives then.
* `Cache.Backed`: every datum in a cache comes from an offer for its name and type that was as
  credible as the entry is, and that the entry does not outlive. All actions keep this.
* `Cache.Scene.lookup_backed`: a lookup only gives data that was offered, with enough credibility,
  and whose time is not over.
-/

namespace NameResolution

namespace Cache

/-- A `Write` that is added to a cache at a time, and how long data was kept at most then. -/
structure Offer where
  write : Write
  time : Duration
  most : Duration

namespace Offer

/-- The instant at which the life of the `offer` ends, in nanoseconds. -/
def deadline (offer : Offer) : Nat :=
  offer.time.nanos + (lifetime offer.write.ttl offer.most).nanos

/-- A `datum` of an `entry` comes from the `offer`, and the entry does not outlive it. -/
structure Backs (offer : Offer) (name : Name) (entry : Entry) (datum : RecordData) : Prop where
  isFor : offer.write.IsFor name entry.type
  contains : datum ∈ offer.write.data
  credibility : offer.write.credibility = entry.credibility
  outlives : entry.expireAt.nanos ≤ offer.deadline

end Offer

/-- All that is offered by some `actions`. -/
def Scene.offers (scene : Scene) : List Action → List Offer
  | [] => []
  | action :: actions =>
    action.writes.map (⟨·, scene.now, scene.cache.settings.maxLife⟩) ++
      (scene.after action).offers actions

/-- Every datum of an `entry` comes from an `Offer` for the same `name` and type. -/
def EntryBacked (offers : List Offer) (name : Name) (entry : Entry) : Prop :=
  ∀ set, entry.finding = .present set →
    set.owner.fold = name.fold ∧ ∀ datum ∈ set.data, ∃ offer ∈ offers, offer.Backs name entry datum

/-- Every datum in the `cache` comes from an `Offer`. -/
def Backed (offers : List Offer) (cache : Cache) : Prop :=
  ∀ name type entry, cache.find? name type = some entry → EntryBacked offers name entry

/-! ## One action -/

theorem Backed.grow {offers more : List Offer} {cache : Cache} (backed : Backed offers cache)
    (subset : offers ⊆ more) : Backed more cache := by
  intro name type entry found set said
  obtain ⟨owner, each⟩ := backed name type entry found set said
  refine ⟨owner, fun datum member => ?_⟩
  obtain ⟨offer, offered, backs⟩ := each datum member
  exact ⟨offer, subset offered, backs⟩

theorem backed_empty (settings : CacheSettings) : Backed [] (.empty settings) := by
  intro name type entry found
  cases found

/-- What a `write` keeps anew comes from this write. -/
theorem backed_insert {write : Write} {now : Duration} {settings : CacheSettings}
    {offers : List Offer} (offered : ⟨write, now, settings.maxLife⟩ ∈ offers) {name : Name}
    {type : RecordType} (isFor : write.IsFor name type) {expireAt : Duration}
    (finish : expiry now write.ttl (write.most settings) = .ok expireAt) :
    EntryBacked offers name ⟨write.finding, write.credibility, expireAt⟩ := by
  intro set said
  have kind : write.IsFor name (Entry.mk write.finding write.credibility expireAt).type := by
    rw [write.type_finding]
    exact ⟨isFor.1, rfl⟩
  obtain ⟨_, ended, sum⟩ | ⟨beyond, -⟩ := expiry_spec now write.ttl (write.most settings)
  · obtain rfl := Except.ok.inj (finish.symm.trans ended)
    cases write with
    | ofRecord record credibility =>
      obtain rfl := Finding.present.inj said
      exact ⟨isFor.1, fun datum member => ⟨_, offered, kind, member, rfl, Nat.le_of_eq sum⟩⟩
    | ofSet set credibility =>
      obtain rfl := Finding.present.inj said
      exact ⟨isFor.1, fun datum member => ⟨_, offered, kind, member, rfl, Nat.le_of_eq sum⟩⟩
    | ofAbsence name type ttl credibility => cases said
  · rw [beyond] at finish
    cases finish

/-- What a `record` has joined comes from this record and from what was there. The life of the
`Entry` ends with the first of these. -/
theorem backed_joined {old : Entry} {set : RecordSet} {record : Record} {now most : Duration}
    {offers : List Offer} {name : Name} {type : RecordType} {expireAt : Duration}
    (offered : ⟨.ofRecord record old.credibility, now, most⟩ ∈ offers)
    (isFor : record.owner.fold = name.fold ∧ record.type = type)
    (backed : EntryBacked offers name old) (kind : old.type = type)
    (said : old.finding = .present set) (sooner : expireAt ≤ old.expireAt)
    (within : expireAt.nanos ≤ now.nanos + (lifetime record.ttl most).nanos) :
    EntryBacked offers name (Write.joined old set record expireAt) := by
  intro merged found
  obtain rfl := Finding.present.inj found
  have same : (Write.joined old set record expireAt).type = type := type_joined said kind
  obtain ⟨owner, each⟩ := backed set said
  refine ⟨by rw [RecordSet.owner_merge, owner], fun datum member => ?_⟩
  obtain before | new := RecordSet.mem_data_merge member
  · obtain ⟨offer, given, backs⟩ := each datum before
    refine ⟨offer, given, ?_, backs.contains, backs.credibility, ?_⟩
    · rw [same, ← kind]
      exact backs.isFor
    · exact Nat.le_trans sooner backs.outlives
  · exact ⟨_, offered, by rw [same]; exact isFor, new, rfl, within⟩

/-- A `write` keeps every datum `Backed`, by what it `offers` itself or by what was offered
before. -/
theorem Backed.perform {write : Write} {now : Duration} {cache : Cache} {offers : List Offer}
    (backed : Backed offers cache) (offered : ⟨write, now, cache.settings.maxLife⟩ ∈ offers) :
    Backed offers (write.perform now cache).2 := by
  intro name type entry found
  obtain before | ⟨isFor, ⟨expireAt, finish, rfl⟩ |
    ⟨record, old, set, expireAt, rfl, kept, said, rfl, sooner, within⟩⟩ :=
    Write.find?_perform found
  · exact backed name type entry before
  · exact backed_insert offered isFor finish
  · exact backed_joined offered isFor (backed name type old kept) (type_of_find? kept) said sooner
      within

theorem Action.Effect.backed {action : Action} {now : Duration} {before after : Cache}
    (effect : action.Effect now before after) (shape : before.WellFormed) {offers : List Offer}
    (backed : Backed offers before)
    (offered : ∀ write ∈ action.writes, ⟨write, now, before.settings.maxLife⟩ ∈ offers) :
    Backed offers after := by
  obtain rfl | known := effect.writes_or_known shape
  · have kept := performAll_keeps
      (fun cache => Backed offers cache ∧ cache.settings = before.settings)
      (fun write member cache ⟨backed, same⟩ =>
        ⟨backed.perform (by rw [same]; exact offered write member),
          (write.settings_perform now cache).trans same⟩)
      ⟨backed, rfl⟩
    exact kept.1
  · exact fun name type entry found => backed name type entry (known name type entry found)

/-! ## Runs -/

/-- In every `run`, each datum in the `cache` comes from something that was offered in this run. -/
theorem Scene.backed_run {scene : Scene} (shape : scene.cache.WellFormed) {offers : List Offer}
    (backed : Backed offers scene.cache) (actions : List Action) :
    Backed (offers ++ scene.offers actions) (scene.run actions).cache := by
  induction actions generalizing scene offers with
  | nil => exact backed.grow (by simp)
  | cons action actions ih =>
    have effect := action.effect_operate scene.now scene.cache
    have next : Backed (offers ++ action.writes.map
        (⟨·, scene.now, scene.cache.settings.maxLife⟩)) (scene.after action).cache :=
      effect.backed shape (backed.grow (List.subset_append_left _ _)) fun write member =>
        List.mem_append_right offers (List.mem_map_of_mem member)
    have rest := ih (effect.wellFormed shape) next
    rwa [List.append_assoc] at rest

theorem toNat_ttlAt_le (entry : Entry) (now : Duration) :
    (entry.ttlAt now).toNat ≤ (entry.expireAt.nanos - now.nanos) / Duration.second := by
  unfold Entry.ttlAt
  rw [UInt32.toNat_ofNat']
  exact Nat.le_trans (Nat.mod_le _ _) (Nat.min_le_left _ _)

/-- Nothing stale or less credible than asked for is ever found. In every run of a cache that starts
empty, each `datum` of a record set that a `lookup` finds goes back to one of the `offers` of the
run for the same owner and type, and all data of the set to such of one and the same `level`, which
is at least `least`. The `deadline` of the offer has not come, and the time to live of the set is at
most what is left until then. -/
theorem Scene.lookup_backed (settings : CacheSettings) (actions : List Action) (name : Name)
    (type : RecordType) (least : Credibility) (found : Lookup)
    (result : (lookup name type least ((start settings).run actions).now
      ((start settings).run actions).cache).1 = .ok found) :
    ∀ set ∈ found.sets, ∃ level, least ≤ level ∧ ∀ datum ∈ set.data,
      ∃ offer ∈ (start settings).offers actions,
        offer.write.IsFor set.owner set.type ∧ datum ∈ offer.write.data ∧
        offer.write.credibility = level ∧
        ((start settings).run actions).now.nanos < offer.deadline ∧
        set.ttl.toNat ≤
          (offer.deadline - ((start settings).run actions).now.nanos) / Duration.second := by
  have shape : (start settings).cache.WellFormed := wellFormed_empty settings
  have backed := backed_run shape (backed_empty settings) actions
  rw [List.nil_append] at backed
  intro set member
  -- What is found is shown by an entry that counts, all data of which comes from offers.
  obtain ⟨owner, kind, entry, counts, credible, here⟩ :=
    serves_lookup (wellFormed_run shape actions) result set member
  obtain ⟨kept, counts⟩ := current?_eq_some.1 counts
  refine ⟨entry.credibility, credible, fun datum within => ?_⟩
  cases said : entry.finding with
  | absent type => simp [Entry.setAt?, said] at here
  | present stored =>
    obtain rfl : { stored with ttl := entry.ttlAt _ } = set := by
      simpa [Entry.setAt?, said] using here
    obtain ⟨same, each⟩ := backed owner kind entry kept stored said
    obtain ⟨offer, offered, backs⟩ := each datum within
    have alive : ((start settings).run actions).now.nanos < entry.expireAt.nanos := by
      exact Nat.lt_of_not_le counts
    have outlives := backs.outlives
    refine ⟨offer, offered, ⟨backs.isFor.1.trans same.symm, ?_⟩, backs.contains, backs.credibility,
      Nat.lt_of_lt_of_le alive outlives, ?_⟩
    · exact backs.isFor.2.trans (type_of_present said).symm
    · refine Nat.le_trans (toNat_ttlAt_le entry _) (Nat.div_le_div_right ?_)
      omega

/-- Two addresses of a host, of which the second one joins the first one (`joinEntry`). -/
def joining : List Action :=
  let host : Name := ⟨[⟨[110, 115], by decide, by decide⟩], true, by decide⟩
  [.addRecord ⟨host, .internet, 60, .a (.ofOctets 192 0 2 1)⟩ .authAnswer,
    .advance (.ofSeconds 10),
    .addRecord ⟨host, .internet, 20, .a (.ofOctets 192 0 2 2)⟩ .authAnswer,
    .advance (.ofMillis 3500)]

/-- The name of the host of `joining`, in another case. -/
def joiningHost : Name := ⟨[⟨[78, 115], by decide, by decide⟩], true, by decide⟩

/-- The `lookup` finds both addresses in one `set`, with what is left of the shorter life. Either
one was offered for the host, with enough `credibility`, and its life has not ended. -/
theorem Scene.lookup_backed_joining :
    let scene := (start .default).run joining
    ∃ set : RecordSet,
      (lookup joiningHost .a .normal scene.now scene.cache).1 = .ok (.successful [set]) ∧
      set.data = [.a (.ofOctets 192 0 2 1), .a (.ofOctets 192 0 2 2)] ∧ set.ttl = 16 ∧
      ∃ level, Credibility.normal ≤ level ∧ ∀ datum ∈ set.data,
        ∃ offer ∈ (start .default).offers joining,
          offer.write.IsFor set.owner set.type ∧ datum ∈ offer.write.data ∧
          offer.write.credibility = level ∧ scene.now.nanos < offer.deadline ∧
          set.ttl.toNat ≤ (offer.deadline - scene.now.nanos) / Duration.second := by
  intro scene
  obtain ⟨set, result, data, ttl⟩ : ∃ set : RecordSet,
      (lookup joiningHost .a .normal scene.now scene.cache).1 = .ok (.successful [set]) ∧
      set.data = [.a (.ofOctets 192 0 2 1), .a (.ofOctets 192 0 2 2)] ∧ set.ttl = 16 :=
    ⟨_, rfl, by decide +kernel, by decide +kernel⟩
  exact ⟨set, result, data, ttl, lookup_backed .default joining joiningHost .a .normal
    (.successful [set]) result set List.mem_cons_self⟩

end Cache

end NameResolution
