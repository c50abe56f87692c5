import NameResolution.RecordSet

/-!
# Laws of record sets

* `RecordSet.first_merge`, `RecordSet.owner_merge`: a set that others join stays what it is.
* `RecordSet.mem_data_merge`: the data of a merged set comes from one of the two sets.
* `RecordSet.nodup_keys_group`: no two of the sets that records consist of have the same owner, type
  and class.
* `RecordSet.forall_mem_group`: what holds of single records and is kept by adding one holds of all
  these sets.
* `RecordSet.exists_record`: every datum of these sets comes from a record with the same owner.
* `RecordSet.group_filter`: to leave out records by what their sets have in common leaves out these
  sets.
* `RecordSet.Uniform`: all data of a set is of one type, as it is in these sets.
-/

namespace NameResolution

/-- Records with addresses can be kept, are of one `type`, and are no name servers. -/
theorem RecordType.IsAddress.ordinary {type : RecordType} (address : type.IsAddress) :
    ¬ type.IsQueryOnly ∧ type ≠ .any ∧ type ≠ .ns := by
  obtain rfl | rfl := address <;> decide

/-- The type of the records with addresses of this family. -/
def Address.family : Address → RecordType
  | v4 _ => .a
  | v6 _ => .aaaa

@[simp] theorem Endpoint.address_ofAddress (address : Address) (port : UInt16) :
    (ofAddress address port).address = address := by
  cases address <;> rfl

/-- Records with an `address` are of the `type` for its family. -/
theorem RecordData.type_of_address? {data : RecordData} {address : Address}
    (gives : data.address? = some address) : data.type = address.family := by
  cases data <;> cases gives <;> rfl

namespace RecordSet

theorem mem_addresses {sets : List RecordSet} {address : Address} :
    address ∈ addresses sets ↔ ∃ set ∈ sets, ∃ datum ∈ set.data, datum.address? = some address := by
  simp only [addresses, List.mem_flatMap, List.mem_filterMap]

theorem first_addDatum (set : RecordSet) (datum : RecordData) :
    (set.addDatum datum).first = set.first := by
  unfold addDatum
  split <;> rfl

theorem owner_addDatum (set : RecordSet) (datum : RecordData) :
    (set.addDatum datum).owner = set.owner := by
  unfold addDatum
  split <;> rfl

theorem mem_data_addDatum {set : RecordSet} {datum added : RecordData}
    (member : datum ∈ (set.addDatum added).data) : datum ∈ set.data ∨ datum = added := by
  unfold addDatum at member
  split at member
  · exact .inl member
  · rw [data, ← List.cons_append, List.mem_append, List.mem_singleton] at member
    exact member

theorem first_foldl_addDatum (set : RecordSet) (data : List RecordData) :
    (data.foldl addDatum set).first = set.first := by
  induction data generalizing set with
  | nil => rfl
  | cons datum data ih => rw [List.foldl_cons, ih, first_addDatum]

theorem owner_foldl_addDatum (set : RecordSet) (data : List RecordData) :
    (data.foldl addDatum set).owner = set.owner := by
  induction data generalizing set with
  | nil => rfl
  | cons datum data ih => rw [List.foldl_cons, ih, owner_addDatum]

theorem mem_data_foldl_addDatum {set : RecordSet} {added : List RecordData} {datum : RecordData}
    (member : datum ∈ (added.foldl addDatum set).data) : datum ∈ set.data ∨ datum ∈ added := by
  induction added generalizing set with
  | nil => exact .inl member
  | cons first added ih =>
    rw [List.mem_cons]
    obtain before | later := ih member
    · obtain own | new := mem_data_addDatum before
      · exact .inl own
      · exact .inr (.inl new)
    · exact .inr (.inr later)

theorem first_merge (set other : RecordSet) : (set.merge other).first = set.first :=
  first_foldl_addDatum _ _

theorem type_merge (set other : RecordSet) : (set.merge other).type = set.type := by
  rw [type, first_merge, type]

theorem owner_merge (set other : RecordSet) : (set.merge other).owner = set.owner :=
  owner_foldl_addDatum _ _

theorem mem_data_merge {set other : RecordSet} {datum : RecordData}
    (member : datum ∈ (set.merge other).data) : datum ∈ set.data ∨ datum ∈ other.data := by
  obtain own | joined := mem_data_foldl_addDatum member
  · exact .inl own
  · exact .inr joined

/-! ## Grouping -/

/-- What the records of a `set` have in common. -/
def key (set : RecordSet) : Name × RecordType × RecordClass :=
  (set.owner.fold, set.type, set.recordClass)

theorem belongs_iff {set : RecordSet} {record : Record} :
    set.Belongs record ↔ set.key = (ofRecord record).key := by
  simp [Belongs, key, ofRecord, type, Record.type, Name.beq_iff]

theorem key_addDatum (set : RecordSet) (datum : RecordData) :
    (set.addDatum datum).key = set.key := by
  unfold addDatum
  split <;> rfl

theorem ttl_addDatum (set : RecordSet) (datum : RecordData) :
    (set.addDatum datum).ttl = set.ttl := by
  unfold addDatum
  split <;> rfl

theorem ttl_foldl_addDatum (set : RecordSet) (data : List RecordData) :
    (data.foldl addDatum set).ttl = set.ttl := by
  induction data generalizing set with
  | nil => rfl
  | cons datum data ih => rw [List.foldl_cons, ih, ttl_addDatum]

/-- A `record` that belongs to a `set` joins it, and no other one does. -/
theorem push?_eq_some_iff {set next : RecordSet} {record : Record} :
    set.push? record = some next ↔
      set.Belongs record ∧
        ({ set with ttl := min set.ttl record.ttl } : RecordSet).addDatum record.data = next := by
  rw [push?]
  by_cases belongs : set.Belongs record
  · rw [if_pos belongs, Option.some.injEq]
    exact (and_iff_right belongs).symm
  · rw [if_neg belongs]
    constructor
    · intro pushed
      cases pushed
    · rintro ⟨joins, -⟩
      exact absurd joins belongs

theorem key_foldl_addDatum (set : RecordSet) (data : List RecordData) :
    (data.foldl addDatum set).key = set.key := by
  induction data generalizing set with
  | nil => rfl
  | cons datum data ih => rw [List.foldl_cons, ih, key_addDatum]

theorem key_merge (set other : RecordSet) : (set.merge other).key = set.key :=
  key_foldl_addDatum _ _

theorem key_push? {set next : RecordSet} {record : Record} (pushed : set.push? record = some next) :
    next.key = set.key := by
  obtain ⟨-, rfl⟩ := push?_eq_some_iff.mp pushed
  exact key_addDatum _ _

/-- A `set` that a `record` has joined lives no longer than the record. -/
theorem ttl_push? {set next : RecordSet} {record : Record} (pushed : set.push? record = some next) :
    next.ttl = set.ttl ∨ next.ttl = record.ttl := by
  obtain ⟨-, rfl⟩ := push?_eq_some_iff.mp pushed
  rw [ttl_addDatum]
  by_cases shorter : set.ttl ≤ record.ttl
  · exact .inl (if_pos shorter)
  · exact .inr (if_neg shorter)

theorem first_push? {set next : RecordSet} {record : Record}
    (pushed : set.push? record = some next) : next.first = set.first := by
  obtain ⟨-, rfl⟩ := push?_eq_some_iff.mp pushed
  exact first_addDatum _ _

theorem map_key_insertRecord (sets : List RecordSet) (record : Record) :
    (ofRecord record).key ∈ sets.map key ∧ (insertRecord sets record).map key = sets.map key ∨
    (ofRecord record).key ∉ sets.map key ∧
      (insertRecord sets record).map key = sets.map key ++ [(ofRecord record).key] := by
  induction sets with
  | nil => exact .inr ⟨List.not_mem_nil, rfl⟩
  | cons set sets ih =>
    unfold insertRecord
    by_cases belongs : set.Belongs record
    · obtain ⟨next, pushed⟩ : ∃ next, set.push? record = some next := ⟨_, if_pos belongs⟩
      have same := belongs_iff.mp belongs
      rw [pushed]
      exact .inl ⟨by simp [same], by simp [key_push? pushed]⟩
    · have pushed : set.push? record = none := if_neg belongs
      have different : (ofRecord record).key ≠ set.key := fun same =>
        belongs (belongs_iff.mpr same.symm)
      rw [pushed]
      simpa [different] using ih

/-- No two of the sets that `records` consist of have the same owner, type and class. -/
theorem nodup_keys_group (records : List Record) : ((group records).map key).Nodup := by
  have step (records : List Record) {sets : List RecordSet} (nodup : (sets.map key).Nodup) :
      ((records.foldl insertRecord sets).map key).Nodup := by
    induction records generalizing sets with
    | nil => exact nodup
    | cons record records ih =>
      refine ih ?_
      obtain ⟨-, same⟩ | ⟨fresh, more⟩ := map_key_insertRecord sets record
      · rwa [same]
      · rw [more, List.nodup_append]
        refine ⟨nodup, List.pairwise_singleton _ _, fun old member new single => ?_⟩
        rintro rfl
        exact fresh (List.mem_singleton.mp single ▸ member)
  exact step records List.nodup_nil

/-- A `set` that `records` consist of is known by its owner, type and class. -/
theorem eq_of_mem_group {records : List Record} {set other : RecordSet}
    (member : set ∈ group records) (among : other ∈ group records) (same : set.key = other.key) :
    set = other := by
  have only (sets : List RecordSet) (nodup : (sets.map key).Nodup) (member : set ∈ sets)
      (among : other ∈ sets) : set = other := by
    induction sets with
    | nil => cases member
    | cons first sets ih =>
      rw [List.map_cons, List.nodup_cons] at nodup
      obtain rfl | later := List.mem_cons.mp member
      · obtain rfl | after := List.mem_cons.mp among
        · rfl
        · exact absurd (List.mem_map.mpr ⟨other, after, same.symm⟩) nodup.1
      · obtain rfl | after := List.mem_cons.mp among
        · exact absurd (List.mem_map.mpr ⟨set, later, same⟩) nodup.1
        · exact ih nodup.2 later after
  exact only (group records) (nodup_keys_group records) member among

theorem length_insertRecord_le (sets : List RecordSet) (record : Record) :
    (insertRecord sets record).length ≤ sets.length + 1 := by
  induction sets with
  | nil => exact Nat.le_refl _
  | cons set sets ih =>
    unfold insertRecord
    split
    · exact Nat.le_succ _
    · exact Nat.succ_le_succ ih

/-- There are no more sets than `records`. -/
theorem length_group_le (records : List Record) : (group records).length ≤ records.length := by
  have step (sets : List RecordSet) :
      (records.foldl insertRecord sets).length ≤ sets.length + records.length := by
    induction records generalizing sets with
    | nil => exact Nat.le_refl _
    | cons record records ih =>
      have rest := ih (insertRecord sets record)
      have first := length_insertRecord_le sets record
      rw [List.foldl_cons, List.length_cons]
      omega
  have all := step []
  rwa [List.length_nil, Nat.zero_add] at all

theorem mem_insertRecord {sets : List RecordSet} {record : Record} {set : RecordSet}
    (member : set ∈ insertRecord sets record) :
    set ∈ sets ∨ set = ofRecord record ∨ ∃ old ∈ sets, old.push? record = some set := by
  induction sets with
  | nil => exact .inr (.inl (List.mem_singleton.mp member))
  | cons first sets ih =>
    unfold insertRecord at member
    split at member
    · rename_i next pushed
      obtain rfl | later := List.mem_cons.mp member
      · exact .inr (.inr ⟨first, List.mem_cons_self, pushed⟩)
      · exact .inl (List.mem_cons_of_mem _ later)
    · obtain rfl | later := List.mem_cons.mp member
      · exact .inl List.mem_cons_self
      · obtain before | new | ⟨old, among, pushed⟩ := ih later
        · exact .inl (List.mem_cons_of_mem _ before)
        · exact .inr (.inl new)
        · exact .inr (.inr ⟨old, List.mem_cons_of_mem _ among, pushed⟩)

/-- What holds of single `records` and is kept when a `record` is added holds of all the sets that
records consist of. -/
theorem forall_mem_group {P : RecordSet → Prop} {records : List Record}
    (single : ∀ record ∈ records, P (ofRecord record))
    (pushed : ∀ record ∈ records, ∀ set next, set.push? record = some next → P set → P next) :
    ∀ set ∈ group records, P set := by
  have step {more : List Record} (subset : more ⊆ records) {sets : List RecordSet}
      (all : ∀ set ∈ sets, P set) : ∀ set ∈ more.foldl insertRecord sets, P set := by
    induction more generalizing sets with
    | nil => exact all
    | cons record more ih =>
      rw [List.cons_subset] at subset
      refine ih subset.2 fun set member => ?_
      obtain before | rfl | ⟨old, among, next⟩ := mem_insertRecord member
      · exact all set before
      · exact single record subset.1
      · exact pushed record subset.1 old set next (all old among)
  exact step (List.Subset.refl _) fun set member => absurd member List.not_mem_nil

/-- Every `datum` of the sets that `records` consist of comes from a `record` with the `owner` of
its `set`. -/
theorem exists_record {records : List Record} : ∀ set ∈ group records, ∀ datum ∈ set.data,
    ∃ record ∈ records, (set.owner == record.owner) = true ∧ record.data = datum := by
  refine forall_mem_group (fun record member datum own => ?_)
    fun record member set next pushed each datum own => ?_
  · obtain rfl := List.mem_singleton.mp own
    exact ⟨record, member, Name.beq_iff.mpr rfl, rfl⟩
  · obtain ⟨belongs, rfl⟩ := push?_eq_some_iff.mp pushed
    rw [owner_addDatum]
    obtain before | rfl := mem_data_addDatum own
    · exact each datum before
    · exact ⟨record, member, belongs.1, rfl⟩

theorem forall_ttl_group {P : UInt32 → Prop} {records : List Record}
    (each : ∀ record ∈ records, P record.ttl) : ∀ set ∈ group records, P set.ttl := by
  refine forall_mem_group each fun record member set next pushed own => ?_
  obtain same | same := ttl_push? pushed
  · rwa [same]
  · rw [same]
    exact each record member

/-- What the owner, type and class of `records` have in common is true of their sets. -/
theorem forall_key_group {P : Name × RecordType × RecordClass → Prop} {records : List Record}
    (each : ∀ record ∈ records, P (ofRecord record).key) : ∀ set ∈ group records, P set.key := by
  refine forall_mem_group each fun record _ set next pushed own => ?_
  rwa [key_push? pushed]

theorem forall_class_group {P : RecordClass → Prop} {records : List Record}
    (each : ∀ record ∈ records, P record.recordClass) :
    ∀ set ∈ group records, P set.recordClass := by
  refine forall_mem_group each fun record _ set next pushed own => ?_
  have same : next.recordClass = set.recordClass := congrArg (·.2.2) (key_push? pushed)
  rwa [same]

theorem forall_type_group {P : RecordType → Prop} {records : List Record}
    (each : ∀ record ∈ records, P record.type) : ∀ set ∈ group records, P set.type := by
  refine forall_mem_group each fun record _ set next pushed own => ?_
  have same : next.type = set.type := congrArg (·.2.1) (key_push? pushed)
  rwa [same]

/-- A `record` whose `set` is left out brings no set. -/
theorem filter_insertRecord (keep : Name × RecordType × RecordClass → Bool)
    (sets : List RecordSet) (record : Record) :
    (insertRecord sets record).filter (fun set => keep set.key) =
      if keep (ofRecord record).key then insertRecord (sets.filter fun set => keep set.key) record
      else sets.filter fun set => keep set.key := by
  induction sets with
  | nil => by_cases kept : keep (ofRecord record).key <;> simp [insertRecord, kept]
  | cons set sets ih =>
    by_cases belongs : set.Belongs record
    · obtain ⟨next, pushed⟩ : ∃ next, set.push? record = some next := ⟨_, if_pos belongs⟩
      have joins (sets : List RecordSet) : insertRecord (set :: sets) record = next :: sets := by
        simp [insertRecord, pushed]
      simp only [joins, List.filter_cons, key_push? pushed, belongs_iff.mp belongs]
      split
      · rw [joins]
      · rfl
    · have passes (sets : List RecordSet) :
          insertRecord (set :: sets) record = set :: insertRecord sets record := by
        simp [insertRecord, show set.push? record = none from if_neg belongs]
      simp only [passes, List.filter_cons, ih]
      cases keep (ofRecord record).key <;> cases keep set.key <;> simp [passes]

/-- To leave out `records` by their owner, type and class is to leave out their sets. -/
theorem group_filter (keep : Name × RecordType × RecordClass → Bool) (records : List Record) :
    group (records.filter fun record => keep (ofRecord record).key) =
      (group records).filter fun set => keep set.key := by
  have step (sets : List RecordSet) :
      (records.filter fun record => keep (ofRecord record).key).foldl insertRecord
          (sets.filter fun set => keep set.key) =
        (records.foldl insertRecord sets).filter fun set => keep set.key := by
    induction records generalizing sets with
    | nil => rfl
    | cons record records ih =>
      rw [List.foldl_cons, ← ih, filter_insertRecord, List.filter_cons]
      split <;> rfl
  exact step []

/-! ## Data of one type -/

/-- All `data` of the `set` is of the `type` of the set. -/
def Uniform (set : RecordSet) : Prop := ∀ datum ∈ set.data, datum.type = set.type

theorem uniform_ofRecord (record : Record) : (ofRecord record).Uniform :=
  List.forall_mem_singleton.mpr rfl

theorem Uniform.push? {set next : RecordSet} {record : Record} (uniform : set.Uniform)
    (pushed : set.push? record = some next) : next.Uniform := by
  intro datum member
  rw [type, first_push? pushed]
  obtain ⟨belongs, rfl⟩ := push?_eq_some_iff.mp pushed
  obtain before | rfl := mem_data_addDatum member
  · exact uniform datum before
  · exact belongs.2.1.symm

theorem uniform_of_mem_group {records : List Record} :
    ∀ set ∈ group records, set.Uniform :=
  forall_mem_group (fun record _ => uniform_ofRecord record)
    fun _ _ _ _ pushed uniform => uniform.push? pushed

theorem Uniform.merge {set other : RecordSet} (uniform : set.Uniform) (joins : other.Uniform)
    (same : other.type = set.type) : (set.merge other).Uniform := by
  intro datum member
  rw [type_merge]
  obtain before | new := mem_data_merge member
  · exact uniform datum before
  · rw [joins datum new, same]

/-- All addresses of a `set` are of one family. -/
theorem Uniform.family {set : RecordSet} (uniform : set.Uniform) {datum : RecordData}
    (member : datum ∈ set.data) {address : Address} (gives : datum.address? = some address) :
    address.family = set.type := by
  rw [← uniform datum member, RecordData.type_of_address? gives]

end RecordSet

end NameResolution
