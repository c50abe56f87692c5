import NameResolution.Proofs.Resolution.AliasChains

/-!
# What a cache remembers of a chain of aliases

A cache that was told of a chain of aliases, with addresses at its end, answers for the first name
of the chain until the first of the records runs out.

* `Cache.Has`: a cache has a record set at hand, as long as it is wanted.
* `Cache.Recalls`: what a cache has to know to answer for a chain. Reading it keeps this
  (`Cache.Recalls.of_shed`).
* `Session.followCached_of_recalls`: then looking the first name up in the cache leads to the
  addresses.
* `Message.Chained.recalls_of_addMessage`: adding the response makes a cache recall its chain.
-/

namespace NameResolution

namespace Cache

/-! ## Recalling a chain -/

/-- The `cache` has a record `set` that can be trusted like an answer, and that counts whenever it
is wanted. -/
def Has (cache : Cache) (Wanted : Duration → Prop) (set : RecordSet) : Prop :=
  ∃ entry, cache.find? set.owner set.type = some entry ∧ entry.finding = .present set ∧
    .normal ≤ entry.credibility ∧ ∀ now, Wanted now → ¬ entry.IsExpired now

/-- The `cache` answers for a chain of aliases with a record `set` at its end: it has all of them,
and nothing else that can be trusted stands in the place of an alias. -/
structure Recalls (cache : Cache) (Wanted : Duration → Prop) (links : List Record)
    (set : RecordSet) : Prop where
  wellFormed : cache.WellFormed
  room : cache.size ≤ cache.settings.maxNames
  has : ∀ own ∈ links.map .ofRecord ++ [set], cache.Has Wanted own
  bare : ∀ record ∈ links, ∀ entry, cache.find? record.owner set.type = some entry →
    ¬ .normal ≤ entry.credibility

section

variable {cache after : Cache} {Wanted : Duration → Prop} {now : Duration} {set : RecordSet}

theorem Has.of_shed (has : cache.Has Wanted set) (shed : Shed now cache after)
    (wanted : Wanted now) : after.Has Wanted set := by
  obtain ⟨entry, found, said, trusted, counts⟩ := has
  refine ⟨entry, ?_, said, trusted, counts⟩
  obtain same | ⟨-, gone⟩ := shed.entry set.owner set.type
  · rw [same, found]
  · cases gone.symm.trans (current?_eq_some.mpr ⟨found, counts now wanted⟩)

/-- What the `cache` has is shown where it is read. -/
theorem Has.view (has : cache.Has Wanted set) (wanted : Wanted now) (reading : Reading)
    (kind : set.type = reading.type) (here : (set.owner == reading.name) = true)
    (type : RecordType) : ∃ ttl, reading.view cache ⟨type, .normal, now⟩ =
      reading.aspect.shows (.present { set with ttl := ttl }) := by
  obtain ⟨entry, found, said, trusted, counts⟩ := has
  rw [find?_congr cache (Name.beq_iff.mp here), kind] at found
  refine ⟨entry.ttlAt now, ?_⟩
  have current := current?_eq_some.mpr ⟨found, counts now wanted⟩
  rw [Reading.view, current, Option.filter_some, if_pos (decide_eq_true trusted), Option.bind_some,
    Entry.findingAt, said]

variable {links : List Record}

/-- Reading the `cache` in time keeps what it recalls. -/
theorem Recalls.of_shed (recalls : cache.Recalls Wanted links set) (shed : Shed now cache after)
    (wanted : Wanted now) : after.Recalls Wanted links set where
  wellFormed := shed.wellFormed
  room := shed.room recalls.room
  has own member := (recalls.has own member).of_shed shed wanted
  bare record member entry found := recalls.bare record member entry (shed.find?_eq_some found)

/-- Nothing is shown where the addresses of an alias among the `links` would be. -/
theorem Recalls.view_of_bare (recalls : cache.Recalls Wanted links set) {record : Record}
    (member : record ∈ links) {name : Name} (here : (record.owner == name) = true) :
    Reading.view ⟨name, set.type, .answer⟩ cache ⟨set.type, .normal, now⟩ = none := by
  rw [Reading.view]
  cases current : cache.current? name set.type now with
  | none => rfl
  | some entry =>
    have found := (current?_eq_some.mp current).1
    rw [← find?_congr cache (Name.beq_iff.mp here)] at found
    have hidden := recalls.bare record member entry found
    rw [Option.filter_some, if_neg (by simpa using hidden), Option.bind_none]

variable {name : Name}

/-- For an alias among the `links`, `lookup` finds the alias. -/
theorem Recalls.lookup_of_alias (recalls : cache.Recalls Wanted links set) (wanted : Wanted now)
    (single : set.type ≠ .any) (absolute : name.absolute = true) {record : Record}
    (member : record ∈ links) (here : (record.owner == name) = true)
    (kind : record.type = .cname) : ∃ ttl next, Shed now cache next ∧
      lookup name set.type .normal now cache =
        (.ok (.cname { RecordSet.ofRecord record with ttl := ttl }), next) := by
  obtain ⟨next, shed, found⟩ :=
    lookup_of_room recalls.wellFormed recalls.room absolute single .normal now
  obtain ⟨ttl, view⟩ := (recalls.has (.ofRecord record)
    (List.mem_append_left _ (List.mem_map_of_mem member))).view wanted ⟨name, .cname, .cname⟩
      kind here set.type
  obtain ⟨later, readings⟩ := exists_readings_eq set.type name
  refine ⟨ttl, next, shed, ?_⟩
  rw [found, readings, List.findSome?_cons, recalls.view_of_bare member here,
    List.findSome?_cons, view]
  rfl

/-- Looking up the last `name` finds the record `set`. -/
theorem Recalls.lookup_of_last (recalls : cache.Recalls Wanted links set) (wanted : Wanted now)
    (single : set.type ≠ .any) (absolute : name.absolute = true)
    (here : (set.owner == name) = true) : ∃ ttl next, Shed now cache next ∧
      lookup name set.type .normal now cache =
        (.ok (.successful [{ set with ttl := ttl }]), next) := by
  obtain ⟨next, shed, found⟩ :=
    lookup_of_room recalls.wellFormed recalls.room absolute single .normal now
  obtain ⟨ttl, view⟩ := (recalls.has set (List.mem_append_right _ List.mem_cons_self)).view wanted
    ⟨name, set.type, .answer⟩ rfl here set.type
  obtain ⟨later, readings⟩ := exists_readings_eq set.type name
  refine ⟨ttl, next, shed, ?_⟩
  rw [found, readings, List.findSome?_cons, view]
  rfl

end

end Cache

namespace Session

open Cache

/-- A `cache` that recalls a chain leads from each `name` of it to the record `set` at the end, if
enough `steps` are left to read the last name too. -/
theorem followCached_of_recalls {message : Message} {question : Question} {links rest : List Record}
    {last name : Name} {set : RecordSet} (chained : message.Chained question links last)
    (ends : set.Ends question last) {Wanted : Duration → Prop} {now : Duration}
    (wanted : Wanted now) (leads : Aliases name rest last) (within : rest ⊆ links) {steps : Nat}
    (enough : rest.length < steps) {cache : Cache} (recalls : cache.Recalls Wanted links set) :
    ∃ ttl next, Shed now cache next ∧ followCached question.type now steps name cache =
      (.ok (.hit (.ok ⟨last, [{ set with ttl := ttl }]⟩)), next) := by
  have single : set.type ≠ .any := ends.kind ▸ chained.isAddress.ordinary.2.1
  -- The induction is on the part of the chain that is still ahead; each lookup leaves a cache that
  -- recalls it.
  induction rest generalizing name steps cache with
  | nil =>
    cases leads with | nil => ?_
    obtain ⟨steps, rfl⟩ := Nat.exists_eq_succ_of_ne_zero (Nat.ne_of_gt enough)
    have absolute := chained.absolute last (List.mem_append_right _ List.mem_cons_self)
    obtain ⟨ttl, next, shed, found⟩ := recalls.lookup_of_last wanted single absolute ends.here
    rw [ends.kind] at found
    exact ⟨ttl, next, shed, by rw [followCached_of_lookup found]; rfl⟩
  | cons record rest ih =>
    cases leads with | @cons _ target _ _ _ here leads further => ?_
    obtain ⟨member, within⟩ := List.cons_subset.mp within
    obtain ⟨steps, rfl⟩ := Nat.exists_eq_succ_of_ne_zero (Nat.ne_of_gt (Nat.zero_lt_of_lt enough))
    have absolute : name.absolute = true := by
      rw [← Name.absolute_congr (Name.beq_iff.mp here)]
      exact chained.absolute _ (List.mem_append_left _ (List.mem_map_of_mem member))
    obtain ⟨ttl, middle, shed, found⟩ := recalls.lookup_of_alias wanted single absolute member here
      (chained.type_of_mem member)
    obtain ⟨ttl', next, shed', led⟩ := ih further within (Nat.lt_of_succ_lt_succ enough)
      (recalls.of_shed shed wanted)
    have named : aliasFound? name (.cname { RecordSet.ofRecord record with ttl := ttl }) =
        some target := by
      rw [aliasFound?, RecordSet.data, RecordSet.ofRecord, leads]
      rfl
    rw [ends.kind] at found
    refine ⟨ttl', next, shed.trans shed', ?_⟩
    rw [followCached_of_lookup found]
    simp only [resultFound?, named]
    exact led

end Session

/-! ## Taking a chain over -/

/-- None of the records of the answer section has run out at `now`, in a cache with the default
settings that has taken them over at the time `since`. -/
def Message.Lives (message : Message) (since now : Duration) : Prop :=
  ∀ record ∈ message.answer,
    now.nanos < since.nanos + (lifetime record.ttl CacheSettings.default.maxLife).nanos

/-- A server that speaks for the zone does not add addresses of the aliases among the `links`. -/
def Message.Humble (message : Message) (type : RecordType) (links : List Record) : Prop :=
  message.header.isAuthoritative = false ∨ ∀ record ∈ message.additional, record.type = type →
    ∀ link ∈ links, ¬ (record.owner == link.owner) = true

/-- A `cache` with the default settings that has room for so many more `names`, and that knows
neither aliases nor data of a `type` at some names. -/
structure Cache.Unaware (cache : Cache) (names : List Name) (type : RecordType) (more : Nat) :
    Prop where
  wellFormed : cache.WellFormed
  settings : cache.settings = .default
  room : cache.size + more ≤ cache.settings.maxNames
  unknown : ∀ name ∈ names, cache.find? name .cname = none ∧ cache.find? name type = none

/-- A `Cache` that knows nothing is such a cache. -/
theorem Cache.unaware_empty (names : List Name) (type : RecordType) {more : Nat}
    (few : more ≤ CacheSettings.default.maxNames) :
    (Cache.empty .default).Unaware names type more where
  wellFormed := wellFormed_empty _
  settings := rfl
  room := by
    rw [Nat.add_comm]
    exact few
  unknown _ _ := ⟨rfl, rfl⟩

namespace Message.Chained

open Cache

variable {message : Message} {question own : Question} {links : List Record} {last : Name}
  {now : Duration} {cache : Cache}

/-- All that is told in the authority section are name servers. In the `additional` section, nothing
is as credible as an answer. -/
theorem credibility_lt (chained : message.Chained question links last)
    (same : (own == question) = true) {write : Write}
    (member : write ∈ authorityWrites own message (answerWalk own message) ++
      additionalWrites (informed message (answerWalk own message)).hosts
        (.ofAdditional message.header.isAuthoritative) (message.sets .additional))
    (foreign : write.type ≠ .ns) :
    write.credibility < .ofAnswer message.header.isAuthoritative := by
  obtain authority | additional := List.mem_append.mp member
  · obtain ⟨set, rfl, servers⟩ :=
      servers_of_completed (chained.replyWrites_eq same).2 authority
    exact absurd servers foreign
  · obtain ⟨set, -, rfl⟩ := List.mem_map.mp additional
    exact Nat.lt_of_not_le (not_ofAnswer_le_ofAdditional _)

/-- A clock that gets beyond `maxLife` is good for all that `performs` tells, since nothing is
denied. -/
theorem performs (chained : message.Chained question links last)
    (asked : message.questions.head? = some own) (same : (own == question) = true)
    (settings : cache.settings = .default)
    (clock : now.nanos + CacheSettings.default.maxLife.nanos ≤ Duration.longest.nanos) :
    (performAll now (writesOf message) cache).1 = .ok () := by
  have told : ∀ write ∈ writesOf message,
      write.refusal? = none ∧ write.Ends now cache.settings := by
    intro write member
    obtain ⟨set, credibility, rfl, ordinary, -⟩ | ⟨_, _, type, ttl, credibility, rfl, -⟩ :=
      mem_writesOf_cases member
    · exact ⟨if_neg ordinary, Write.ends_of_most (settings ▸ clock)⟩
    · rw [writesOf_of_usable asked (.inl chained.fine)] at member
      obtain ⟨set, is, -⟩ := servers_of_completed (chained.replyWrites_eq same).2
        (mem_authorityWrites_of_absence member)
      cases is
  exact performAll_eq_ok (fun write member => isWhole_of_mem_writesOf member)
    (fun write member => (told write member).1) fun write member => (told write member).2

/-- What the `answer` section tells has a life. -/
theorem lasts (chained : message.Chained question links last)
    (clock : now.nanos + CacheSettings.default.maxLife.nanos ≤ Duration.longest.nanos)
    {set : RecordSet} (member : set ∈ message.sets .answer) :
    Write.Lasts (.ofSet set (.ofAnswer message.header.isAuthoritative)) now .default := by
  obtain ⟨last, sets, ends⟩ := chained.exists_sets
  have ordinary : ¬ set.type.IsQueryOnly := by
    rw [sets] at member
    obtain among | own := List.mem_append.mp member
    · rw [chained.type_of_mem_map among]
      decide
    · rw [List.mem_singleton.mp own, ends.kind]
      exact chained.isAddress.ordinary.1
  have most : 0 < CacheSettings.default.maxLife.nanos := by decide
  exact ⟨trivial, if_neg ordinary, Write.ends_of_most clock, Write.life_pos
    (RecordSet.forall_ttl_group (P := (· ≠ 0)) chained.lasting set member) most⟩

theorem lasts_of_reply (chained : message.Chained question links last)
    (same : (own == question) = true)
    (clock : now.nanos + CacheSettings.default.maxLife.nanos ≤ Duration.longest.nanos) :
    ∀ write ∈ replyWrites own message, write.Lasts now .default := by
  intro write told
  rw [(chained.replyWrites_eq same).1] at told
  obtain ⟨set, member, rfl⟩ := List.mem_map.mp told
  exact chained.lasts clock member

/-- Where nothing was known, the `answer` section decides what counts. -/
theorem current?_of_reply (chained : message.Chained question links last)
    (same : (own == question) = true)
    (clock : now.nanos + CacheSettings.default.maxLife.nanos ≤ Duration.longest.nanos)
    (settings : cache.settings = .default)
    (room : cache.size + (replyWrites own message).length ≤ cache.settings.maxNames)
    {set : RecordSet} (member : set ∈ message.sets .answer)
    (unknown : cache.find? set.owner set.type = none) :
    (performAll now (replyWrites own message) cache).2.current? set.owner set.type now =
      some ((Write.ofSet set (.ofAnswer message.header.isAuthoritative)).entryAt now .default) := by
  have writes := (chained.replyWrites_eq same).1
  have lasting : ∀ write ∈ replyWrites own message, write.Lasts now cache.settings :=
    settings ▸ chained.lasts_of_reply same clock
  have written : .ofSet set (.ofAnswer message.header.isAuthoritative) ∈
      (replyWrites own message).filter (·.IsFor set.owner set.type) := by
    rw [List.mem_filter, writes]
    exact ⟨List.mem_map_of_mem member, decide_eq_true ⟨rfl, rfl⟩⟩
  have nothing : cache.current? set.owner set.type now = none := by rw [current?, unknown]; rfl
  rw [current?_performAll lasting room, nothing, settings]
  obtain ⟨entry, settled, -⟩ := @exists_settleAll now .default none _ _ written
  -- no other set of the answer section is for the same name and type
  obtain before | ⟨write, told, rfl⟩ := exists_of_settleAll settled
  · cases before
  obtain ⟨told, isFor⟩ := List.mem_filter.mp told
  rw [writes] at told
  obtain ⟨other, among, rfl⟩ := List.mem_map.mp told
  obtain ⟨owners, types⟩ := of_decide_eq_true isFor
  have classes := RecordSet.forall_class_group (P := (· = question.recordClass)) chained.own
  have keys : other.key = set.key := by
    rw [RecordSet.key, RecordSet.key, classes other among, classes set member]
    exact Prod.ext owners (Prod.ext types rfl)
  rwa [RecordSet.eq_of_mem_group among member keys] at settled

/-- The `cache` takes over all that the answer section tells. -/
theorem exists_replied (chained : message.Chained question links last)
    (same : (own == question) = true)
    (clock : now.nanos + CacheSettings.default.maxLife.nanos ≤ Duration.longest.nanos)
    (shape : cache.WellFormed) (settings : cache.settings = .default) :
    ∃ middle, performAll now (replyWrites own message) cache = (.ok (), middle) ∧
      middle.WellFormed ∧ middle.settings = cache.settings ∧
      middle.size ≤ cache.size + (replyWrites own message).length := by
  have lasting : ∀ write ∈ replyWrites own message, write.Lasts now cache.settings :=
    settings ▸ chained.lasts_of_reply same clock
  have replied : (performAll now (replyWrites own message) cache).1 = .ok () :=
    performAll_eq_ok (fun write told => (lasting write told).whole)
      (fun write told => (lasting write told).accepted) fun write told => (lasting write told).ends
  exact ⟨_, Prod.ext replied rfl,
    performAll_keeps WellFormed (fun write _ _ shape => write.wellFormed_perform shape now) shape,
    performAll_keeps (fun after => after.settings = cache.settings)
      (fun write _ after kept => (write.settings_perform now after).trans kept) rfl,
    size_performAll_le lasting⟩

/-- What is told in the `answer` section is not replaced by what the other sections tell. -/
theorem find?_of_reply (chained : message.Chained question links last)
    (asked : message.questions.head? = some own) (same : (own == question) = true)
    (clock : now.nanos + CacheSettings.default.maxLife.nanos ≤ Duration.longest.nanos)
    (unaware : cache.Unaware (links.map Record.owner ++ [last]) question.type
      (message.answer.length + 1 + message.additional.length))
    {set : RecordSet} (member : set ∈ message.sets .answer)
    (unknown : cache.find? set.owner set.type = none) (foreign : set.type ≠ .ns) :
    (performAll now (writesOf message) cache).2.find? set.owner set.type =
      some ((Write.ofSet set (.ofAnswer message.header.isAuthoritative)).entryAt now .default) := by
  -- First the writes of the answer section, then those of the other sections, none of which blocks
  -- them.
  have split : writesOf message = replyWrites own message ++
      (authorityWrites own message (answerWalk own message) ++
        additionalWrites (informed message (answerWalk own message)).hosts
          (.ofAdditional message.header.isAuthoritative) (message.sets .additional)) := by
    rw [writesOf_of_usable asked (.inl chained.fine), ← List.append_assoc]
    rfl
  have room : cache.size + (writesOf message).length ≤ cache.settings.maxNames := by
    rw [writesOf_of_usable asked (.inl chained.fine)]
    exact Nat.le_trans (Nat.add_le_add_left (length_writesFor_le own message) _) unaware.room
  rw [split, List.length_append] at room
  have current :=
    chained.current?_of_reply same clock unaware.settings (by omega) member unknown
  obtain ⟨middle, replied, shape, limits, grown⟩ :=
    chained.exists_replied same clock unaware.wellFormed unaware.settings
  rw [replied] at current
  obtain ⟨found, alive⟩ := current?_eq_some.mp current
  rw [split, performAll_append, Op.bind_apply, replied]
  refine find?_performAll_of_current alive (fun write told isFor => ?_) shape found
    (not_writesEvict_of_room ?_ _)
  · exact chained.credibility_lt same told (isFor.2 ▸ foreign)
  · rw [limits]
    exact Nat.le_trans (Nat.add_le_add_right grown _) (by omega)

/-- As long as the records of the `answer` section live, so does what the cache makes of them. -/
theorem not_isExpired_of_lives
    (clock : now.nanos + CacheSettings.default.maxLife.nanos ≤ Duration.longest.nanos)
    {set : RecordSet} (member : set ∈ message.sets .answer) (credibility : Credibility)
    {later : Duration} (lives : message.Lives now later) :
    ¬ ((Write.ofSet set credibility).entryAt now .default).IsExpired later := by
  have left := RecordSet.forall_ttl_group (P := fun ttl =>
    later.nanos < now.nanos + (lifetime ttl CacheSettings.default.maxLife).nanos) lives set member
  have ends : (Write.ofSet set credibility).Ends now .default := Write.ends_of_most clock
  refine Nat.not_le.mpr ?_
  rwa [Write.nanos_expireAt_entryAt ends]

/-- What comes to be known of the addresses of an alias of a `Humble` message cannot be trusted. -/
theorem bare_of_humble (chained : message.Chained question links last)
    (humble : message.Humble question.type links) (asked : message.questions.head? = some own)
    (same : (own == question) = true) {record : Record} (member : record ∈ links)
    (unknown : cache.find? record.owner question.type = none) {entry : Entry}
    (found : (performAll now (writesOf message) cache).2.find? record.owner question.type =
      some entry) : ¬ .normal ≤ entry.credibility := by
  obtain ⟨set, sets, ends⟩ := chained.exists_sets
  obtain before | ⟨write, told, ⟨owner, kind⟩, -, level⟩ :=
    find?_performAll (fun _ => isWhole_of_mem_writesOf) found
  · cases unknown.symm.trans before
  rw [writesOf_of_usable asked (.inl chained.fine)] at told
  -- Neither the answer section nor the name servers hold addresses of an alias; only glue may.
  obtain reply | authority | ⟨other, among, -, -, rfl⟩ := mem_writesFor told
  · rw [(chained.replyWrites_eq same).1, sets] at reply
    obtain ⟨other, among, rfl⟩ := List.mem_map.mp reply
    obtain link | own := List.mem_append.mp among
    · exact absurd ((chained.type_of_mem_map link).symm.trans kind) chained.cname_ne
    · obtain rfl := List.mem_singleton.mp own
      exact absurd (Name.beq_iff.mpr (owner.symm.trans (Name.beq_iff.mp ends.here)))
        (chained.apart_last member)
  · obtain ⟨other, rfl, servers⟩ :=
      servers_of_completed (chained.replyWrites_eq same).2 authority
    exact absurd (kind.symm.trans servers) chained.isAddress.ordinary.2.2
  · rw [level]
    obtain humble | foreign := humble
    · rw [humble]
      exact (by decide : ¬ Credibility.normal ≤ .ofAdditional false)
    · obtain ⟨added, within, owners, data⟩ :=
        RecordSet.exists_record other among other.first List.mem_cons_self
      have types : added.type = question.type := (congrArg RecordData.type data).trans kind
      refine absurd (Name.beq_iff.mpr ?_) (foreign added within types record member)
      exact (Name.beq_iff.mp owners).symm.trans owner

/-- What a `cache` is unaware of is all that the `answer` section tells. -/
theorem unknown_of_unaware (chained : message.Chained question links last)
    (unaware : ∀ name ∈ links.map Record.owner ++ [last],
      cache.find? name .cname = none ∧ cache.find? name question.type = none) {set : RecordSet}
    (sets : message.sets .answer = links.map .ofRecord ++ [set]) (ends : set.Ends question last) :
    ∀ other ∈ message.sets .answer,
      cache.find? other.owner other.type = none ∧ other.type ≠ .ns := by
  intro other member
  rw [sets] at member
  obtain link | own := List.mem_append.mp member
  · obtain ⟨record, among, rfl⟩ := List.mem_map.mp link
    have kind : (RecordSet.ofRecord record).type = .cname := chained.type_of_mem among
    have known := unaware _ (List.mem_append_left _ (List.mem_map_of_mem among))
    exact kind ▸ ⟨known.1, (by decide)⟩
  · obtain rfl := List.mem_singleton.mp own
    have known := unaware last (List.mem_append_right _ List.mem_cons_self)
    rw [find?_congr cache (Name.beq_iff.mp ends.here), ends.kind]
    exact ⟨known.2, chained.isAddress.ordinary.2.2⟩

/-- A `cache` that was unaware of a chain recalls it after a response with the chain was added, as
long as the records live. -/
theorem recalls_of_addMessage (chained : message.Chained question links last)
    (humble : message.Humble question.type links)
    (clock : now.nanos + CacheSettings.default.maxLife.nanos ≤ Duration.longest.nanos)
    (unaware : cache.Unaware (links.map Record.owner ++ [last]) question.type
      (message.answer.length + 1 + message.additional.length))
    {set : RecordSet} (sets : message.sets .answer = links.map .ofRecord ++ [set])
    (ends : set.Ends question last) :
    ∃ found after, addMessage message now cache = (.ok found, after) ∧
      after.Recalls (message.Lives now) links set := by
  obtain ⟨own, asked, same⟩ := chained.asked
  have performed := chained.performs asked same unaware.settings clock
  have unknown := chained.unknown_of_unaware unaware.unknown sets ends
  refine ⟨meaningOf message, (performAll now (writesOf message) cache).2, ?_, ?_, ?_,
    fun other member => ?_, fun record member entry => ?_⟩
  · rw [addMessage_apply, performed]
    rfl
  · exact performAll_keeps WellFormed (fun write _ _ shape => write.wellFormed_perform shape now)
      unaware.wellFormed
  · exact performAll_keeps (fun after => after.size ≤ after.settings.maxNames)
      (fun write _ _ room => write.room_perform now room) (Nat.le_of_add_right_le unaware.room)
  · rw [← sets] at member
    obtain ⟨nothing, foreign⟩ := unknown other member
    exact ⟨_, chained.find?_of_reply asked same clock unaware member nothing foreign, rfl,
      normal_le_ofAnswer _, fun later lives => not_isExpired_of_lives clock member _ lives⟩
  · rw [ends.kind]
    refine chained.bare_of_humble humble asked same member ?_
    exact (unaware.unknown _ (List.mem_append_left _ (List.mem_map_of_mem member))).2

end Message.Chained

end NameResolution
