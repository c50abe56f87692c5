import NameResolution.Proofs.Query.Correlation
import NameResolution.Proofs.Resolution.Recall

/-!
# Answers at the end of a chain of aliases

A response may lead over aliases, one after the other, to a name with addresses. The resolver and
the cache both take all of it, whatever the other sections of the response say.

* `Aliases`: records that lead from a name over aliases to another one.
* `Message.Chained`: a response whose answer section is such a chain with addresses at its end.
* `Message.Chained.exists_sets`: the record sets of the answer section, in order.
* `Message.Chained.classify_eq`: the resolver finds the addresses.
* `Message.Chained.replyWrites_eq`: the cache is told of every record set.
* `Message.relay`: such responses, with chains of any length.
-/

namespace NameResolution

/-- Records that make a `name` an alias of another one, this one an alias of a third one, and so on
until the last name. -/
inductive Aliases : Name → List Record → Name → Prop
  | nil (name : Name) : Aliases name [] name
  | cons {name target last : Name} {record : Record} {records : List Record}
    (here : (record.owner == name) = true) (leads : record.data = .cname target)
    (rest : Aliases target records last) : Aliases name (record :: records) last

/-! ## Record sets -/

namespace RecordSet

/-- A `record` of a new `key` gets a `set` of its own. -/
theorem insertRecord_of_new {sets : List RecordSet} {record : Record}
    (new : ∀ set ∈ sets, set.key ≠ (ofRecord record).key) :
    insertRecord sets record = sets ++ [ofRecord record] := by
  induction sets with
  | nil => rfl
  | cons set sets ih =>
    obtain ⟨own, rest⟩ := List.forall_mem_cons.mp new
    have pushed : set.push? record = none := if_neg fun belongs => own (belongs_iff.mp belongs)
    rw [insertRecord, pushed, ih rest, List.cons_append]

/-- A `record` that belongs to the last `set`, and to no other one, joins it. -/
theorem insertRecord_of_last {sets : List RecordSet} {last : RecordSet} {record : Record}
    (others : ∀ set ∈ sets, set.key ≠ (ofRecord record).key) (belongs : last.Belongs record) :
    insertRecord (sets ++ [last]) record = sets ++ [last.push record] := by
  induction sets with
  | nil =>
    have pushed : last.push? record = some (last.push record) := by
      rw [push, push?, if_pos belongs, Option.getD_some]
    rw [List.nil_append, insertRecord, pushed]
    rfl
  | cons set sets ih =>
    obtain ⟨own, rest⟩ := List.forall_mem_cons.mp others
    have pushed : set.push? record = none := if_neg fun belongs => own (belongs_iff.mp belongs)
    rw [List.cons_append, insertRecord, pushed, ih rest, List.cons_append]

/-- A `set` that a `record` joins stays a set of the same kind, and keeps its first datum. -/
theorem push_same (set : RecordSet) (record : Record) :
    (set.push record).key = set.key ∧ (set.push record).first = set.first := by
  unfold push
  cases pushed : set.push? record with
  | none => exact ⟨rfl, rfl⟩
  | some next => exact ⟨key_push? pushed, first_push? pushed⟩

/-- Records of one `key` that come last make up the last `set`. -/
theorem exists_foldl_of_last {sets : List RecordSet} {records : List Record} {last : RecordSet}
    (others : ∀ set ∈ sets, set.key ≠ last.key)
    (same : ∀ record ∈ records, (ofRecord record).key = last.key) :
    ∃ whole : RecordSet, records.foldl insertRecord (sets ++ [last]) = sets ++ [whole] ∧
      whole.key = last.key ∧ whole.first = last.first := by
  induction records generalizing last with
  | nil => exact ⟨last, rfl, rfl, rfl⟩
  | cons record records ih =>
    obtain ⟨own, rest⟩ := List.forall_mem_cons.mp same
    obtain ⟨key, first⟩ := push_same last record
    obtain ⟨whole, folded, key', first'⟩ := @ih (last.push record)
      (by rwa [key]) (by rwa [key])
    refine ⟨whole, ?_, key'.trans key, first'.trans first⟩
    rw [List.foldl_cons,
      insertRecord_of_last (own ▸ others) (belongs_iff.mpr own.symm), folded]

/-- Records with keys of their own make up `sets` of their own. -/
theorem foldl_of_apart {sets : List RecordSet} {records : List Record}
    (apart : (sets.map key ++ records.map fun record => (ofRecord record).key).Nodup) :
    records.foldl insertRecord sets = sets ++ records.map ofRecord := by
  induction records generalizing sets with
  | nil => exact (List.append_nil sets).symm
  | cons record records ih =>
    have new : ∀ set ∈ sets, set.key ≠ (ofRecord record).key := fun set member =>
      (List.nodup_append.mp apart).2.2 _ (List.mem_map_of_mem member) _ List.mem_cons_self
    rw [List.foldl_cons, insertRecord_of_new new, ih (by simpa using apart), List.map_cons,
      List.append_assoc, List.singleton_append]

end RecordSet

/-! ## Responses -/

/-- A response to a `question` for addresses. Its answer section is a chain of aliases, followed by
the addresses of the last name. The names on the way are apart from each other. All of these records
have the class that was asked for, and live. -/
structure Message.Chained (message : Message) (question : Question) (links : List Record)
    (last : Name) : Prop where
  fine : message.rcode = .noError
  asked : ∃ own, message.questions.head? = some own ∧ (own == question) = true
  leads : Aliases question.name links last
  apart : (links.map Record.owner ++ [last]).Pairwise fun name other => ¬ (name == other) = true
  absolute : ∀ name ∈ links.map Record.owner ++ [last], name.absolute = true
  answers : ∃ addresses, addresses ≠ [] ∧ message.answer = links ++ addresses ∧
    ∀ record ∈ addresses, (record.owner == last) = true ∧
      ∃ address, record.data.address? = some address ∧ address.family = question.type
  own : ∀ record ∈ message.answer, record.recordClass = question.recordClass
  lasting : ∀ record ∈ message.answer, record.ttl ≠ 0

/-- The record `set` at the end of a chain of aliases. -/
structure RecordSet.Ends (set : RecordSet) (question : Question) (last : Name) : Prop where
  kind : set.type = question.type
  here : (set.owner == last) = true
  own : set.recordClass = question.recordClass
  gives : set.first.address?.isSome

theorem Aliases.mem_data {name last : Name} {links : List Record}
    (leads : Aliases name links last) :
    ∀ record ∈ links, ∃ target, record.data = .cname target := by
  induction leads with
  | nil name => exact List.forall_mem_nil _
  | cons here leads rest ih => exact List.forall_mem_cons.mpr ⟨⟨_, leads⟩, ih⟩

namespace Message.Chained

variable {message : Message} {question : Question} {links : List Record} {last : Name}

theorem isAddress (chained : message.Chained question links last) : question.type.IsAddress := by
  obtain ⟨addresses, some, -, each⟩ := chained.answers
  obtain ⟨record, member⟩ := List.exists_mem_of_ne_nil _ some
  obtain ⟨-, address, -, family⟩ := each record member
  rw [← family]
  cases address
  · exact .inl rfl
  · exact .inr rfl

theorem type_of_mem (chained : message.Chained question links last) {record : Record}
    (member : record ∈ links) : record.type = .cname := by
  obtain ⟨target, data⟩ := chained.leads.mem_data record member
  rw [Record.type, data]
  rfl

theorem type_of_mem_map (chained : message.Chained question links last) {set : RecordSet}
    (member : set ∈ links.map .ofRecord) : set.type = .cname := by
  obtain ⟨record, among, rfl⟩ := List.mem_map.mp member
  exact chained.type_of_mem among

theorem cname_ne (chained : message.Chained question links last) :
    RecordType.cname ≠ question.type := by
  obtain same | same := chained.isAddress <;> rw [same] <;> decide

/-- The `name` that was asked for is absolute, like all that it leads to. -/
theorem absolute_name (chained : message.Chained question links last) :
    question.name.absolute = true := by
  obtain ⟨-, -, leads, -, absolute, -⟩ := chained
  cases leads with
  | nil => exact absolute _ List.mem_cons_self
  | cons here =>
    rw [← Name.absolute_congr (Name.beq_iff.mp here)]
    exact absolute _ List.mem_cons_self

/-- No alias among the `links` has the `last` name at its end. -/
theorem apart_last (chained : message.Chained question links last) {record : Record}
    (member : record ∈ links) : ¬ (record.owner == last) = true :=
  (List.pairwise_append.mp chained.apart).2.2 _ (List.mem_map_of_mem member) _
    List.mem_cons_self

/-- What a `record` at the end of the chain has in common with the others there. -/
theorem key_of_address (chained : message.Chained question links last) {record : Record}
    (member : record ∈ message.answer) (here : (record.owner == last) = true)
    (gives : ∃ address, record.data.address? = some address ∧ address.family = question.type) :
    (RecordSet.ofRecord record).key = (last.fold, question.type, question.recordClass) := by
  obtain ⟨address, is, family⟩ := gives
  have type : record.data.type = question.type := by rw [RecordData.type_of_address? is, family]
  show (record.owner.fold, record.data.type, record.recordClass) = _
  rw [Name.beq_iff.mp here, type, chained.own record member]

/-- The aliases make up a `set` each, none of which is that of the addresses. -/
theorem foldl_links (chained : message.Chained question links last) :
    links.foldl RecordSet.insertRecord [] = links.map .ofRecord ∧
      ∀ set ∈ links.map RecordSet.ofRecord,
        set.key ≠ (last.fold, question.type, question.recordClass) := by
  have apart : (links.map fun record => (RecordSet.ofRecord record).key).Nodup := by
    refine List.Pairwise.map _ (fun record other apart same => ?_)
      (List.pairwise_map.mp (List.pairwise_append.mp chained.apart).1)
    exact apart (Name.beq_iff.mpr (congrArg Prod.fst same))
  refine ⟨RecordSet.foldl_of_apart (by simpa using apart), fun set among same => ?_⟩
  have type : set.type = question.type := congrArg (·.2.1) same
  exact chained.cname_ne ((chained.type_of_mem_map among).symm.trans type)

/-- The record `sets` of the `answer` section: one for each alias, and the addresses. -/
theorem exists_sets (chained : message.Chained question links last) :
    ∃ set : RecordSet, message.sets .answer = links.map .ofRecord ++ [set] ∧
      set.Ends question last := by
  obtain ⟨addresses, some, answer, each⟩ := chained.answers
  obtain ⟨first, addresses, rfl⟩ := List.exists_cons_of_ne_nil some
  obtain ⟨grouped, others⟩ := chained.foldl_links
  -- The records at the end have one key, and no alias has it, so they make up the last set.
  have keys : ∀ record ∈ first :: addresses, (RecordSet.ofRecord record).key =
      (last.fold, question.type, question.recordClass) := by
    intro record among
    have within : record ∈ message.answer := answer ▸ List.mem_append_right _ among
    exact chained.key_of_address within (each record among).1 (each record among).2
  obtain ⟨own, rest⟩ := List.forall_mem_cons.mp keys
  obtain ⟨whole, folded, key, data⟩ := RecordSet.exists_foldl_of_last (own ▸ others) (own ▸ rest)
  have key := key.trans own
  refine ⟨whole, ?_, congrArg (·.2.1) key, Name.beq_iff.mpr (congrArg Prod.fst key),
    congrArg (·.2.2) key, ?_⟩
  · show RecordSet.group message.answer = _
    rw [answer, RecordSet.group, List.foldl_append, grouped, List.foldl_cons,
      RecordSet.insertRecord_of_new (own ▸ others), folded]
  · obtain ⟨address, gives, -⟩ := (each first List.mem_cons_self).2
    rw [data]
    exact Option.isSome_iff_exists.mpr ⟨address, gives⟩

section

variable {set : RecordSet} {name : Name} {record : Record}

/-! ### What the resolver reads -/

theorem type_ne_dname (chained : message.Chained question links last)
    (sets : message.sets .answer = links.map .ofRecord ++ [set]) (ends : set.Ends question last) :
    ∀ other ∈ message.sets .answer, other.type ≠ .dname := by
  intro other member
  rw [sets] at member
  obtain among | own := List.mem_append.mp member
  · rw [chained.type_of_mem_map among]
    decide
  · rw [List.mem_singleton.mp own, ends.kind]
    obtain same | same := chained.isAddress <;> rw [same] <;> decide

/-- An alias among the `links` has no addresses. -/
theorem setsAt_of_alias (chained : message.Chained question links last)
    (sets : message.sets .answer = links.map .ofRecord ++ [set]) (ends : set.Ends question last)
    (member : record ∈ links) (here : (record.owner == name) = true) :
    Outcome.setsAt (message.sets .answer) name question.type = [] := by
  refine List.filter_eq_nil_iff.mpr fun other among fits => ?_
  obtain ⟨kind, owner⟩ := of_decide_eq_true fits
  rw [sets] at among
  obtain among | own := List.mem_append.mp among
  · exact chained.cname_ne ((chained.type_of_mem_map among).symm.trans kind)
  · rw [List.mem_singleton.mp own] at owner
    exact chained.apart_last member (Name.beq_iff.mpr ((Name.beq_iff.mp here).trans
      ((Name.beq_iff.mp owner).symm.trans (Name.beq_iff.mp ends.here))))

/-- The `last` name has the addresses that `set` holds. -/
theorem setsAt_last (chained : message.Chained question links last)
    (sets : message.sets .answer = links.map .ofRecord ++ [set]) (ends : set.Ends question last) :
    Outcome.setsAt (message.sets .answer) last question.type = [set] := by
  rw [sets, Outcome.setsAt, List.filter_append,
    List.filter_eq_nil_iff.mpr fun other among fits => ?_, List.nil_append]
  · simp [ends.kind, ends.here]
  · exact chained.cname_ne ((chained.type_of_mem_map among).symm.trans (of_decide_eq_true fits).1)

theorem aliasStep?_of_alias (chained : message.Chained question links last)
    (sets : message.sets .answer = links.map .ofRecord ++ [set]) (ends : set.Ends question last)
    (member : record ∈ links) (here : (record.owner == name) = true) {target : Name}
    (leads : record.data = .cname target) :
    Outcome.aliasStep? (message.sets .answer) name = some target := by
  have among : .ofRecord record ∈ message.sets .answer := by
    rw [sets]
    exact List.mem_append_left _ (List.mem_map_of_mem member)
  have classes := RecordSet.forall_class_group (P := (· = question.recordClass)) chained.own
  refine Outcome.aliasStep?_eq_some (chained.type_ne_dname sets ends) among leads here
    fun other present kind owner => RecordSet.eq_of_mem_group present among ?_
  have owners : other.owner.fold = record.owner.fold :=
    (Name.beq_iff.mp owner).trans (Name.beq_iff.mp here).symm
  show (other.owner.fold, other.type, other.recordClass) = (record.owner.fold, record.type, _)
  rw [owners, kind, chained.type_of_mem member, classes other present]
  exact congrArg _ (congrArg _ (classes _ among).symm)

/-- From every `name` on the way, the `Aliases` lead to the addresses of the last one. -/
theorem follow_eq (chained : message.Chained question links last)
    (sets : message.sets .answer = links.map .ofRecord ++ [set]) (ends : set.Ends question last)
    {rest : List Record} (leads : Aliases name rest last) (within : rest ⊆ links) {steps : Nat}
    (enough : rest.length < steps) :
    Outcome.follow (message.sets .answer) question.type steps name = .found ⟨last, [set]⟩ := by
  induction rest generalizing name steps with
  | nil =>
    cases leads with | nil => ?_
    obtain ⟨steps, rfl⟩ := Nat.exists_eq_succ_of_ne_zero (Nat.ne_of_gt enough)
    rw [Outcome.follow]
    simp only [chained.setsAt_last sets ends, List.isEmpty_cons, Bool.false_eq_true, if_false]
  | cons record rest ih =>
    cases leads with | cons here leads further => ?_
    obtain ⟨own, within⟩ := List.cons_subset.mp within
    obtain ⟨steps, rfl⟩ := Nat.exists_eq_succ_of_ne_zero (Nat.ne_of_gt (Nat.zero_lt_of_lt enough))
    rw [Outcome.follow]
    simp only [chained.setsAt_of_alias sets ends own here, List.isEmpty_nil, if_true,
      chained.aliasStep?_of_alias sets ends own here leads]
    exact ih further within (Nat.lt_of_succ_lt_succ enough)

/-- The resolver finds the addresses of the last `name`. -/
theorem classify_eq (chained : message.Chained question links last)
    (sets : message.sets .answer = links.map .ofRecord ++ [set]) (ends : set.Ends question last) :
    Outcome.classify message question.name question.type = .answer ⟨last, [set]⟩ := by
  have enough : links.length < (message.sets .answer).length + 1 := by
    rw [sets, List.length_append, List.length_map]
    omega
  unfold Outcome.classify
  simp only [chained.follow_eq sets ends chained.leads (List.Subset.refl _) enough]

/-! ### What the cache is told -/

/-- A `walk` that has come to the `name` of an alias goes on with the name that it leads to. -/
theorem meaning_of_link (chained : message.Chained question links last) {own : Question}
    (same : (own == question) = true) (member : record ∈ links) {walk : Cache.Walk}
    (reached : (walk.name == name) = true) (here : (record.owner == name) = true) {target : Name}
    (leads : record.data = .cname target) : walk.meaning own (.ofRecord record) = .cname ∧
      (walk.followCname (.ofRecord record)).name = target := by
  obtain ⟨-, types, classes⟩ := Question.beq_iff.mp same
  have kind : (RecordSet.ofRecord record).type = .cname := chained.type_of_mem member
  have recordClass : (RecordSet.ofRecord record).recordClass = own.recordClass := by
    obtain ⟨addresses, -, answer, -⟩ := chained.answers
    exact (chained.own record (answer ▸ List.mem_append_left _ member)).trans classes.symm
  have owner : ((RecordSet.ofRecord record).owner == walk.name) = true :=
    Name.beq_iff.mpr ((Name.beq_iff.mp here).trans (Name.beq_iff.mp reached).symm)
  have useful : ¬ RecordType.IsQueryOnly .cname := by decide
  constructor
  · unfold Cache.Walk.meaning
    rw [if_neg (not_or.mpr ⟨not_not_intro recordClass, kind ▸ useful⟩), if_neg,
      if_pos ⟨kind, owner⟩]
    rintro ⟨same | same, -⟩
    · exact chained.cname_ne (kind.symm.trans (same.trans types))
    · exact chained.isAddress.ordinary.2.1 (types.symm.trans same)
  · unfold Cache.Walk.followCname
    simp only [RecordSet.ofRecord, leads]

/-- At the last `name`, the `walk` meets the `answer`. -/
theorem meaning_of_last (chained : message.Chained question links last)
    (ends : set.Ends question last) {own : Question} (same : (own == question) = true)
    {walk : Cache.Walk} (reached : (walk.name == last) = true) :
    walk.meaning own set = .answer := by
  obtain ⟨-, types, classes⟩ := Question.beq_iff.mp same
  have useful : ¬ set.type.IsQueryOnly := ends.kind ▸ chained.isAddress.ordinary.1
  have owner : (set.owner == walk.name) = true :=
    Name.beq_iff.mpr ((Name.beq_iff.mp ends.here).trans (Name.beq_iff.mp reached).symm)
  unfold Cache.Walk.meaning
  rw [if_neg (not_or.mpr ⟨not_not_intro (ends.own.trans classes.symm), useful⟩)]
  exact if_pos ⟨.inl (ends.kind.trans types.symm), owner⟩

/-- A `walk` through the answer section follows all `Aliases` and meets the addresses. -/
theorem walk_eq (chained : message.Chained question links last) (ends : set.Ends question last)
    {own : Question} (same : (own == question) = true) (credibility : Credibility)
    {rest : List Record} (leads : Aliases name rest last) (within : rest ⊆ links)
    {walk : Cache.Walk} (reached : (walk.name == name) = true) :
    Cache.answerWrites own credibility walk (rest.map .ofRecord ++ [set]) =
        (rest.map RecordSet.ofRecord ++ [set]).map (.ofSet · credibility) ∧
      (Cache.walked own walk (rest.map .ofRecord ++ [set])).completed = true := by
  induction rest generalizing name walk with
  | nil =>
    cases leads with | nil => ?_
    have meaning := chained.meaning_of_last ends same reached
    simp [Cache.answerWrites, Cache.walked, meaning, Cache.Walk.complete]
  | cons record rest ih =>
    cases leads with | cons here leads further => ?_
    obtain ⟨member, within⟩ := List.cons_subset.mp within
    obtain ⟨meaning, next⟩ := chained.meaning_of_link same member reached here leads
    obtain ⟨writes, completed⟩ := ih further within (by rw [next, Name.beq_self])
    simp only [List.map_cons, List.cons_append, Cache.answerWrites, Cache.walked, meaning, writes]
    exact ⟨trivial, completed⟩

/-- The `Cache` is told of every record set of the `answer` section. -/
theorem replyWrites_eq (chained : message.Chained question links last) {own : Question}
    (same : (own == question) = true) :
    Cache.replyWrites own message = (message.sets .answer).map
        (.ofSet · (.ofAnswer message.header.isAuthoritative)) ∧
      (Cache.answerWalk own message).completed = true := by
  obtain ⟨set, sets, ends⟩ := chained.exists_sets
  have starts : ((Cache.Walk.start own.name).name == question.name) = true :=
    (Question.beq_iff.mp same).1
  obtain ⟨writes, completed⟩ := chained.walk_eq ends same
    (.ofAnswer message.header.isAuthoritative) chained.leads (List.Subset.refl _) starts
  rw [Cache.replyWrites, Cache.answerWalk, sets]
  exact ⟨writes, completed⟩

end

end Message.Chained

/-! ## Relays -/

namespace Message

/-- One of the names that a `relay` leads over. -/
def relayName (place : Nat) : Name := .top (97 + place.toUInt8)

/-- An alias of a `relay`, which leads to the next `relayName`. -/
def relayLink (place : Nat) : Record :=
  ⟨relayName place, .internet, 3600, .cname (relayName (place + 1))⟩

/-- A response that leads over `count` aliases to an address. -/
def relay (count : Nat) : Message where
  header := Header.empty.setResponse true
  questions := [.internet (relayName 0) .a]
  answer := (List.range' 0 count).map relayLink ++
    [⟨relayName count, .internet, 3600, .a (.ofOctets 192 0 2 80)⟩]
  authority := []
  additional := []

theorem aliases_relay (start count : Nat) : Aliases (relayName start)
    ((List.range' start count).map relayLink) (relayName (start + count)) := by
  induction count generalizing start with
  | zero => exact .nil _
  | succ count ih =>
    have rest := ih (start + 1)
    rw [Nat.add_right_comm] at rest
    exact .cons (Name.beq_self _) rfl rest

theorem chained_relay {count : Nat} (few : count ≤ Session.cachedAliases) :
    (relay count).Chained (.internet (relayName 0) .a) ((List.range' 0 count).map relayLink)
      (relayName count) where
  fine := (by decide : (relay 0).rcode = .noError)
  asked := ⟨_, rfl, by decide⟩
  leads := by
    have leads := aliases_relay 0 count
    rwa [Nat.zero_add] at leads
  apart := by
    have apart : ∀ count < 17, (((List.range' 0 count).map relayLink).map Record.owner ++
        [relayName count]).Pairwise fun name other => ¬ (name == other) = true := by
      decide +kernel
    exact apart count (Nat.lt_succ_of_le few)
  absolute name member := by
    obtain link | own := List.mem_append.mp member
    · obtain ⟨record, among, rfl⟩ := List.mem_map.mp link
      obtain ⟨place, -, rfl⟩ := List.mem_map.mp among
      rfl
    · rw [List.mem_singleton.mp own]
      rfl
  answers := ⟨_, List.cons_ne_nil _ _, rfl, by
    intro record member
    rw [List.mem_singleton.mp member]
    exact ⟨Name.beq_self _, _, rfl, rfl⟩⟩
  own record member := by
    obtain link | own := List.mem_append.mp member
    · obtain ⟨place, -, rfl⟩ := List.mem_map.mp link
      rfl
    · rw [List.mem_singleton.mp own]
      rfl
  lasting record member := by
    obtain link | own := List.mem_append.mp member
    · obtain ⟨place, -, rfl⟩ := List.mem_map.mp link
      exact (by decide : (3600 : UInt32) ≠ 0)
    · rw [List.mem_singleton.mp own]
      exact (by decide : (3600 : UInt32) ≠ 0)

end Message

end NameResolution
