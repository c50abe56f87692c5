import Mathlib.Logic.ExistsUnique
import NameResolution.Message
import NameResolution.Proofs.Names
import NameResolution.Proofs.RecordSets

/-!
# Grouping records

The records of a section are put into sets one after the other, each into the first set that it
belongs to. What comes out can be said without following this: a set for each owner, type and class,
with the data of all records that belong to it.

* `List.eraseDups_sublist`, `List.pairwise_eraseDups`: the first occurrences of the elements of a
  list.
* `RecordSet.group_cons`: the first record of a list takes those that belong to its set out of it.
* `RecordSet.Gathers`: a set has the data and the time to live of records.
* `RecordSet.map_heading_group`, `RecordSet.gathers_of_mem_group`: which sets there are, and what is
  in them.
* `RecordSet.group_flatMap_records`: the records of sets are grouped into these sets.
* `RecordSet.Built`: sets that records are put together to. `RecordSet.Built.distinct`,
  `RecordSet.Built.uniform`: what is always true of them.
* `Message.sets_grouped`: all this for the sections of messages.
-/

namespace NameResolution

/-! ## First occurrences -/

section Occurrences

variable {α : Type} [BEq α]

/-- Of the elements of a `list`, `eraseDups` leaves some, in the same order. -/
theorem eraseDups_sublist (list : List α) : list.eraseDups.Sublist list :=
  match list with
  | [] => .slnil
  | first :: list => by
    rw [List.eraseDups_cons]
    exact ((eraseDups_sublist _).trans List.filter_sublist).cons_cons first
  termination_by list.length
  decreasing_by exact Nat.lt_succ_of_le (List.length_filter_le _ _)

/-- None of those that are left equals an `earlier` one. -/
theorem pairwise_eraseDups (list : List α) :
    list.eraseDups.Pairwise fun earlier later => ¬(later == earlier) = true :=
  match list with
  | [] => List.Pairwise.nil
  | first :: list => by
    rw [List.eraseDups_cons]
    refine .cons (fun later member => ?_) (pairwise_eraseDups _)
    have kept := List.mem_filter.mp ((eraseDups_sublist _).subset member)
    simpa using kept.2
  termination_by list.length
  decreasing_by exact Nat.lt_succ_of_le (List.length_filter_le _ _)

end Occurrences

/-- Owner, type and class of a `record`. -/
def Record.heading (record : Record) : Name × RecordType × RecordClass :=
  (record.owner, record.type, record.recordClass)

namespace RecordSet

/-- Owner, type and class of a `set`. -/
def heading (set : RecordSet) : Name × RecordType × RecordClass :=
  (set.owner, set.type, set.recordClass)

/-- The data of the `set` is that of the `records`, each datum once and where it first occurs, and
its time to live is the smallest one. -/
structure Gathers (set : RecordSet) (records : List Record) : Prop where
  data : set.data = (records.map Record.data).eraseDups
  ttl : (records.map Record.ttl).min? = some set.ttl

/-! ## Filling one set -/

theorem data_addDatum (set : RecordSet) (datum : RecordData) : (set.addDatum datum).data =
    if set.data.contains datum then set.data else set.data ++ [datum] := by
  unfold addDatum
  split <;> rfl

/-- Of the `data` that is added, each `datum` that is not there yet is put behind the rest, where it
first occurs. -/
theorem data_foldl_addDatum (set : RecordSet) (added : List RecordData) :
    (added.foldl addDatum set).data =
      set.data ++ (added.filter fun datum => !set.data.contains datum).eraseDups := by
  induction added generalizing set with
  | nil => simp
  | cons datum added ih =>
    rw [List.foldl_cons, ih, data_addDatum, List.filter_cons]
    by_cases known : set.data.contains datum = true
    · simp [known]
    · simp [known, List.eraseDups_cons, List.filter_filter, Bool.and_comm]

/-- Data that does not occur yet in the `set` is added as it is. -/
theorem foldl_addDatum_of_distinct {set : RecordSet} {added : List RecordData}
    (distinct : (set.data ++ added).Pairwise fun earlier later => ¬(later == earlier) = true) :
    added.foldl addDatum set = { set with others := set.others ++ added } := by
  induction added generalizing set with
  | nil => simp
  | cons datum added ih =>
    have new : ¬set.data.contains datum = true := by
      rw [List.contains_eq_any_beq, List.any_eq_true]
      rintro ⟨earlier, member, same⟩
      exact (List.pairwise_append.mp distinct).2.2 earlier member datum List.mem_cons_self same
    have joined : set.addDatum datum = { set with others := set.others ++ [datum] } := if_neg new
    rw [List.foldl_cons, joined, ih (by simpa [data] using distinct), List.append_assoc]
    rfl

theorem addDatum_withTtl (set : RecordSet) (datum : RecordData) (ttl : UInt32) :
    ({ set with ttl := ttl } : RecordSet).addDatum datum =
      { set.addDatum datum with ttl := ttl } := by
  unfold addDatum data
  split <;> rfl

variable {set : RecordSet} {sets : List RecordSet} {record : Record} {records : List Record}

theorem push_of_belongs (belongs : set.Belongs record) : set.push record =
    ({ set with ttl := min set.ttl record.ttl } : RecordSet).addDatum record.data := by
  rw [push, push?, if_pos belongs, Option.getD_some]

theorem heading_push (set : RecordSet) (record : Record) :
    (set.push record).heading = set.heading := by
  by_cases belongs : set.Belongs record
  · rw [push_of_belongs belongs, addDatum]
    split <;> rfl
  · rw [push, push?, if_neg belongs, Option.getD_none]

theorem heading_foldl_push (set : RecordSet) (records : List Record) :
    (records.foldl push set).heading = set.heading := by
  induction records generalizing set with
  | nil => rfl
  | cons record records ih => rw [List.foldl_cons, ih, heading_push]

/-- Which records belong to a `set` depends on its owner, type and class. -/
theorem heading_beq_iff : (record.heading == set.heading) = true ↔ set.Belongs record := by
  show (record.owner == set.owner && (record.type == set.type &&
    record.recordClass == set.recordClass)) = true ↔
      (set.owner == record.owner) = true ∧ set.type = record.type ∧
        set.recordClass = record.recordClass
  rw [Bool.and_eq_true, Bool.and_eq_true]
  refine and_congr Name.beq_comm (and_congr ?_ ?_)
  · exact beq_iff_eq.trans eq_comm
  · exact beq_iff_eq.trans eq_comm

theorem belongs_congr {other : RecordSet} (same : set.heading = other.heading) :
    set.Belongs record ↔ other.Belongs record := by
  rw [← heading_beq_iff, same, heading_beq_iff]

/-- A `set` that `records` join has the `data` of all, and the smallest time to live. -/
theorem foldl_push (all : ∀ record ∈ records, set.Belongs record) : records.foldl push set =
    (records.map Record.data).foldl addDatum
      { set with ttl := (records.map Record.ttl).foldl min set.ttl } := by
  induction records generalizing set with
  | nil => rfl
  | cons record records ih =>
    obtain ⟨first, rest⟩ := List.forall_mem_cons.mp all
    have rest : ∀ other ∈ records, (set.push record).Belongs other := fun other member =>
      (belongs_congr (heading_push set record)).mpr (rest other member)
    rw [List.foldl_cons, ih rest, push_of_belongs first, ttl_addDatum, ← addDatum_withTtl]
    rfl

/-! ## The first set and the others -/

/-- The first `set` takes the `records` that belong to it, and leaves the others to the rest. -/
theorem foldl_insertRecord_cons (set : RecordSet) (sets : List RecordSet) (records : List Record) :
    records.foldl insertRecord (set :: sets) =
      (records.filter fun record => set.Belongs record).foldl push set ::
        (records.filter fun record => ¬set.Belongs record).foldl insertRecord sets := by
  induction records generalizing set sets with
  | nil => rfl
  | cons record records ih =>
    by_cases belongs : set.Belongs record
    · have joins : insertRecord (set :: sets) record = set.push record :: sets := by
        simp [insertRecord, push, push?, belongs]
      have still (other : Record) : (set.push record).Belongs other ↔ set.Belongs other :=
        belongs_congr (heading_push set record)
      rw [List.foldl_cons, joins, ih]
      simp [belongs, still]
    · have passes : insertRecord (set :: sets) record = set :: insertRecord sets record := by
        simp [insertRecord, push?, belongs]
      rw [List.foldl_cons, passes, ih]
      simp [belongs]

/-- The first `record` of a list makes up a set with those that belong to it. The others are grouped
as if these were not there. -/
theorem group_cons (record : Record) (records : List Record) : group (record :: records) =
    (records.filter fun other => (ofRecord record).Belongs other).foldl push (ofRecord record) ::
      group (records.filter fun other => ¬(ofRecord record).Belongs other) :=
  foldl_insertRecord_cons (ofRecord record) [] records

/-- What is kept if the `records` of the first set are put in front holds of all lists of
records. -/
@[elab_as_elim]
theorem group_induction {motive : List Record → Prop} (nil : motive [])
    (cons : ∀ record records,
      motive (records.filter fun other => ¬(ofRecord record).Belongs other) →
        motive (record :: records)) (records : List Record) : motive records :=
  match records with
  | [] => nil
  | record :: records => cons record records (group_induction nil cons _)
  termination_by records.length
  decreasing_by exact Nat.lt_succ_of_le (List.length_filter_le _ _)

/-- There is a set in `group` for each owner, type and class, in the order in which these first
occur in the `records`. -/
theorem map_heading_group (records : List Record) :
    (group records).map heading = (records.map Record.heading).eraseDups := by
  induction records using group_induction with
  | nil => rfl
  | cons record records ih =>
    have others (other : Record) :
        (!other.heading == record.heading) = decide ¬(ofRecord record).Belongs other := by
      rw [Bool.eq_iff_iff, Bool.not_eq_true', decide_eq_true_eq, ← heading_beq_iff,
        Bool.not_eq_true]
      rfl
    rw [group_cons, List.map_cons, ih, heading_foldl_push, List.map_cons, List.eraseDups_cons,
      List.filter_map]
    simp only [Function.comp_def, others]
    rfl

theorem gathers_foldl_push (all : ∀ other ∈ records, (ofRecord record).Belongs other) :
    (records.foldl push (ofRecord record)).Gathers (record :: records) := by
  rw [foldl_push all]
  constructor
  · rw [data_foldl_addDatum, List.map_cons, List.eraseDups_cons]
    simp [data, ofRecord]
  · rw [ttl_foldl_addDatum]
    rfl

/-- Every `set` puts together the `records` that belong to it. -/
theorem gathers_of_mem_group : ∀ set ∈ group records,
    set.Gathers (records.filter fun record => set.Belongs record) := by
  induction records using group_induction with
  | nil => exact List.forall_mem_nil _
  | cons record records ih =>
    rw [group_cons, List.forall_mem_cons]
    constructor
    · have same (other : Record) :
          ((records.filter fun other => (ofRecord record).Belongs other).foldl push
            (ofRecord record)).Belongs other ↔ (ofRecord record).Belongs other :=
        belongs_congr (heading_foldl_push _ _)
      have own : (ofRecord record).Belongs record := belongs_iff.mpr rfl
      simp only [same, List.filter_cons, own, decide_true, if_true]
      exact gathers_foldl_push fun other member => by simpa using (List.mem_filter.mp member).2
    · intro set member
      -- None of the records that the first set took belongs to this one.
      have apart : set.key ≠ (ofRecord record).key := by
        refine forall_key_group (P := fun key => key ≠ (ofRecord record).key) ?_ set member
        intro other among same
        have outside := (List.mem_filter.mp among).2
        rw [decide_eq_true_eq, belongs_iff] at outside
        exact outside same.symm
      have left (other : Record) (belongs : set.Belongs other) :
          ¬(ofRecord record).Belongs other := fun both =>
        apart ((belongs_iff.mp belongs).trans (belongs_iff.mp both).symm)
      have outside : ¬set.Belongs record := fun belongs =>
        left record belongs (belongs_iff.mpr rfl)
      have whole : ((records.filter fun other => ¬(ofRecord record).Belongs other).filter
          fun other => set.Belongs other) =
          (record :: records).filter fun other => set.Belongs other := by
        rw [List.filter_cons, decide_eq_false outside, List.filter_filter]
        refine List.filter_congr fun other _ => ?_
        by_cases belongs : set.Belongs other
        · simp [belongs, left other belongs]
        · simp [belongs]
      exact whole ▸ ih set member

theorem exists_set_of_mem : ∀ record ∈ records, ∃ set ∈ group records, set.Belongs record := by
  induction records using group_induction with
  | nil => exact List.forall_mem_nil _
  | cons first records ih =>
    intro record member
    rw [group_cons]
    by_cases belongs : (ofRecord first).Belongs record
    · refine ⟨_, List.mem_cons_self, (belongs_congr (heading_foldl_push _ _)).mpr belongs⟩
    · have later : record ∈ records := by
        obtain rfl | later := List.mem_cons.mp member
        · exact absurd (belongs_iff.mpr rfl) belongs
        · exact later
      obtain ⟨set, among, own⟩ := ih record (List.mem_filter.mpr ⟨later, by simpa using belongs⟩)
      exact ⟨set, List.mem_cons_of_mem _ among, own⟩

/-- Every `record` belongs to one `set` and no other. -/
theorem existsUnique_set_of_mem (member : record ∈ records) :
    ∃! set, set ∈ group records ∧ set.Belongs record := by
  obtain ⟨set, among, belongs⟩ := exists_set_of_mem record member
  refine ⟨set, ⟨among, belongs⟩, ?_⟩
  rintro other ⟨also, takes⟩
  exact eq_of_mem_group also among ((belongs_iff.mp takes).trans (belongs_iff.mp belongs).symm)

/-! ## Grouping again -/

/-- No datum occurs twice in the `set`. -/
def Distinct (set : RecordSet) : Prop :=
  set.data.Pairwise fun earlier later => ¬(later == earlier) = true

theorem distinct_of_mem_group (member : set ∈ group records) : set.Distinct := by
  rw [Distinct, (gathers_of_mem_group set member).data]
  exact pairwise_eraseDups _

theorem belongs_of_mem_records (uniform : set.Uniform) :
    ∀ record ∈ set.records, set.Belongs record := by
  intro record member
  obtain ⟨datum, among, rfl⟩ := List.mem_map.mp member
  exact ⟨Name.beq_self _, (uniform datum among).symm, rfl⟩

/-- The `records` of a `set`, the first one of which the others join, make up this set. -/
theorem exists_records_eq (uniform : set.Uniform) (distinct : set.Distinct) :
    ∃ first others, set.records = first :: others ∧ (ofRecord first).heading = set.heading ∧
      others.foldl push (ofRecord first) = set := by
  refine ⟨⟨set.owner, set.recordClass, set.ttl, set.first⟩, _, rfl, rfl, ?_⟩
  have least (count : Nat) : (List.replicate count set.ttl).foldl min set.ttl = set.ttl := by
    induction count with
    | zero => rfl
    | succ count ih =>
      have same : min set.ttl set.ttl = set.ttl := ite_self _
      rw [List.replicate_succ, List.foldl_cons, same, ih]
  rw [foldl_push]
  · simp only [List.map_map, Function.comp_def, List.map_id', List.map_const', ofRecord, least]
    exact foldl_addDatum_of_distinct distinct
  · intro record member
    exact belongs_of_mem_records uniform record (List.mem_cons_of_mem _ member)

/-- The `records` of `sets` are grouped into these sets, if no two of them have the same owner, type
and class. -/
theorem group_flatMap_records {sets : List RecordSet} (apart : (sets.map key).Nodup)
    (uniform : ∀ set ∈ sets, set.Uniform) (distinct : ∀ set ∈ sets, set.Distinct) :
    group (sets.flatMap RecordSet.records) = sets := by
  induction sets with
  | nil => rfl
  | cons set sets ih =>
    rw [List.map_cons, List.nodup_cons] at apart
    rw [List.forall_mem_cons] at uniform distinct
    obtain ⟨first, others, split, same, whole⟩ := exists_records_eq uniform.1 distinct.1
    -- The records of the first set join the set that the first of them makes, and all others do
    -- not.
    have inside : ∀ record ∈ others, (ofRecord first).Belongs record := fun record member =>
      (belongs_congr same).mpr <| belongs_of_mem_records uniform.1 record <|
        split ▸ List.mem_cons_of_mem _ member
    have outside : ∀ record ∈ sets.flatMap RecordSet.records,
        ¬(ofRecord first).Belongs record := by
      intro record member joins
      obtain ⟨other, among, own⟩ := List.mem_flatMap.mp member
      have key := belongs_iff.mp (belongs_of_mem_records (uniform.2 other among) record own)
      have key' := belongs_iff.mp ((belongs_congr same).mp joins)
      exact apart.1 (List.mem_map.mpr ⟨other, among, key.trans key'.symm⟩)
    have own : (others.filter fun record => (ofRecord first).Belongs record) = others ∧
        (others.filter fun record => ¬(ofRecord first).Belongs record) = [] :=
      ⟨List.filter_eq_self.mpr (by simpa using inside),
        List.filter_eq_nil_iff.mpr (by simpa using inside)⟩
    have rest : ((sets.flatMap RecordSet.records).filter fun record =>
          (ofRecord first).Belongs record) = [] ∧
        ((sets.flatMap RecordSet.records).filter fun record =>
          ¬(ofRecord first).Belongs record) = sets.flatMap RecordSet.records :=
      ⟨List.filter_eq_nil_iff.mpr (by simpa using outside),
        List.filter_eq_self.mpr (by simpa using outside)⟩
    rw [List.flatMap_cons, split, List.cons_append, group_cons, List.filter_append,
      List.filter_append, own.1, own.2, rest.1, rest.2, List.append_nil, List.nil_append, whole,
      ih apart.2 uniform.2 distinct.2]

/-! ## Sets that are put together -/

theorem distinct_ofRecord (record : Record) : (ofRecord record).Distinct :=
  List.pairwise_singleton _ _

theorem Distinct.addDatum (distinct : set.Distinct) (datum : RecordData) :
    (set.addDatum datum).Distinct := by
  rw [Distinct, data_addDatum]
  split
  · exact distinct
  · rename_i new
    refine List.pairwise_append.mpr ⟨distinct, List.pairwise_singleton _ _, ?_⟩
    intro earlier member later last same
    obtain rfl := List.mem_singleton.mp last
    rw [List.contains_eq_any_beq, List.any_eq_true] at new
    exact new ⟨earlier, member, same⟩

theorem Distinct.push (distinct : set.Distinct) (record : Record) : (set.push record).Distinct := by
  by_cases belongs : set.Belongs record
  · have shorter : ({ set with ttl := min set.ttl record.ttl } : RecordSet).Distinct := distinct
    rw [push_of_belongs belongs]
    exact shorter.addDatum record.data
  · rwa [RecordSet.push, push?, if_neg belongs]

theorem Distinct.merge (distinct : set.Distinct) (other : RecordSet) :
    (set.merge other).Distinct :=
  List.foldlRecOn (motive := Distinct) other.data RecordSet.addDatum
    (b := { set with ttl := min set.ttl other.ttl }) distinct
    fun _ distinct datum _ => distinct.addDatum datum

theorem Uniform.push (uniform : set.Uniform) (record : Record) : (set.push record).Uniform := by
  cases pushed : set.push? record with
  | none => rwa [RecordSet.push, pushed]
  | some next =>
    rw [RecordSet.push, pushed]
    exact uniform.push? pushed

/-- The sets that come about when records are put together: a `record` makes a `set` of its own, and
other records are added to it. -/
inductive Built : RecordSet → Prop
  | ofRecord (record : Record) : Built (ofRecord record)
  | push {set : RecordSet} (built : Built set) (record : Record) : Built (set.push record)

theorem Built.distinct (built : set.Built) : set.Distinct := by
  induction built with
  | ofRecord record => exact distinct_ofRecord record
  | push _ record distinct => exact distinct.push record

theorem Built.uniform (built : set.Built) : set.Uniform := by
  induction built with
  | ofRecord record => exact uniform_ofRecord record
  | push _ record uniform => exact uniform.push record

/-- Each `set` of a section has been built by `group`. -/
theorem built_of_mem_group : ∀ set ∈ group records, set.Built :=
  forall_mem_group (fun record _ => .ofRecord record) fun record _ set next pushed built => by
    have same : set.push record = next := by rw [push, pushed, Option.getD_some]
    exact same ▸ built.push record

end RecordSet

namespace Message

/-- The records of a `Section` are grouped without loss, and nothing is added. There is one of the
`sets` for each owner, type and class, in the order in which these first occur, with the owner as it
is spelled there. It has the data of the `records` that belong to it, each datum once and where it
first occurs, and the smallest one of their times to live. Every `record` belongs to one set and no
other, and the records of the sets are grouped into the same sets again. -/
theorem sets_grouped (message : Message) (place : Section) :
    (message.sets place).map RecordSet.heading =
      ((message.records place).map Record.heading).eraseDups ∧
    ((message.sets place).Pairwise fun earlier later =>
      ¬(later.heading == earlier.heading) = true) ∧
    (∀ set ∈ message.sets place,
      set.data = (((message.records place).filter fun record => set.Belongs record).map
        Record.data).eraseDups ∧
      (set.data.Pairwise fun earlier later => ¬(later == earlier) = true) ∧
      (((message.records place).filter fun record => set.Belongs record).map Record.ttl).min? =
        some set.ttl) ∧
    (∀ record ∈ message.records place, ∃! set, set ∈ message.sets place ∧ set.Belongs record) ∧
    RecordSet.group ((message.sets place).flatMap RecordSet.records) = message.sets place := by
  have headings := RecordSet.map_heading_group (message.records place)
  refine ⟨headings, ?_, fun set member => ?_, fun record member => ?_, ?_⟩
  · have apart := pairwise_eraseDups ((message.records place).map Record.heading)
    rw [← headings] at apart
    exact List.pairwise_map.mp apart
  · have gathers := RecordSet.gathers_of_mem_group set member
    exact ⟨gathers.data, RecordSet.distinct_of_mem_group member, gathers.ttl⟩
  · exact RecordSet.existsUnique_set_of_mem member
  · exact RecordSet.group_flatMap_records (RecordSet.nodup_keys_group _)
      RecordSet.uniform_of_mem_group fun set member => RecordSet.distinct_of_mem_group member

/-- A response with three records of `a.`, two of them with the same data, and one of `b.` -/
def mixed : Message where
  header := Header.empty.setResponse true
  questions := []
  answer :=
    [⟨.top 65, .internet, 300, .ns (.top 120)⟩,
      ⟨.top 98, .internet, 60, .cname (.top 97)⟩,
      ⟨.top 97, .internet, 200, .ns (.top 121)⟩,
      ⟨.top 97, .internet, 100, .ns (.top 88)⟩]
  authority := []
  additional := []

/-- The records of `a.` make up the first set. Its owner and its data are spelled as they are at
first. -/
theorem sets_grouped_mixed :
    mixed.sets .answer =
      [⟨.top 65, .internet, 100, .ns (.top 120), [.ns (.top 121)]⟩,
        ⟨.top 98, .internet, 60, .cname (.top 97), []⟩] ∧
    (∃! set, set ∈ mixed.sets .answer ∧ set.Belongs ⟨.top 97, .internet, 100, .ns (.top 88)⟩) ∧
    RecordSet.group ((mixed.sets .answer).flatMap RecordSet.records) = mixed.sets .answer := by
  obtain ⟨-, -, -, only, again⟩ := sets_grouped mixed .answer
  exact ⟨by decide, only _ (.tail _ (.tail _ (.tail _ (.head _)))), again⟩

end Message

end NameResolution
