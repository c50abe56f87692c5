import Mathlib.Data.List.Nodup
import NameResolution.Proofs.Cache.Chains
import NameResolution.Proofs.Cache.Results
import NameResolution.Proofs.Resolution.Outcomes
import NameResolution.Resolution.Session

/-!
# Two readers of an answer

A response that answers a question is read twice. The resolver follows aliases to the records
(`Outcome.classify`), wherever they stand in the answer section. The cache follows them in the order
in which they stand there (`Cache.addMessage`), and is asked when the name is looked up once more
(`Session.followCached`).

* `Outcome.InOrder`: the aliases stand in front of the records that they lead to.
* `Cache.Orderly`: a response whose answer the cache takes as it is.
* `Session.followCached_addMessage`: then both find the same answer.
-/

namespace NameResolution

namespace Outcome

variable {sets : List RecordSet} {type : RecordType} {name : Name}

/-- More `steps` lead to the same `answer`. -/
theorem follow_of_le {steps more : Nat} {answer : Answer}
    (found : follow sets type steps name = .found answer) (le : steps ≤ more) :
    follow sets type more name = .found answer := by
  induction steps generalizing more name with
  | zero => cases found
  | succ steps ih =>
    obtain ⟨more, rfl⟩ : ∃ fewer, more = fewer + 1 := ⟨more - 1, by omega⟩
    unfold follow at found ⊢
    dsimp only at found ⊢
    split at found
    · rename_i empty
      rw [if_pos empty]
      cases step : aliasStep? sets name with
      | none =>
        rw [step] at found
        cases found
      | some next =>
        rw [step] at found
        exact ih found (Nat.le_of_succ_le_succ le)
    · rename_i filled
      rw [if_neg filled]
      exact found

/-- Whatever the number of `steps`, aliases lead to one `answer` only. -/
theorem follow_unique {steps more : Nat} {answer other : Answer}
    (found : follow sets type steps name = .found answer)
    (again : follow sets type more name = .found other) : answer = other := by
  have first := follow_of_le found (Nat.le_max_left steps more)
  have second := follow_of_le again (Nat.le_max_right steps more)
  exact Trail.found.inj (first.symm.trans second)

/-- Without aliases of subtrees, a `name` is what the only alias `set` with this `owner` says. -/
theorem aliasStep?_eq_some {target : Name} (plain : ∀ set ∈ sets, set.type ≠ .dname)
    {set : RecordSet} (among : set ∈ sets) (first : set.first = .cname target)
    (here : (set.owner == name) = true)
    (only : ∀ other ∈ sets, other.type = .cname → (other.owner == name) = true → other = set) :
    aliasStep? sets name = some target := by
  cases step : aliasStep? sets name with
  | none =>
    have nothing := List.findSome?_eq_none_iff.mp step set among
    rw [aliasBy?, first] at nothing
    simp only [here, if_true] at nothing
    cases nothing
  | some next =>
    -- Whichever set decides is a CNAME set of the same owner, of which there is only one.
    obtain ⟨other, member, is⟩ := List.exists_of_findSome?_eq_some step
    unfold aliasBy? at is
    split at is
    · rename_i goal named
      split at is
      · rename_i owner
        obtain rfl := only other member (by rw [RecordSet.type, named]; rfl) owner
        obtain rfl := RecordData.cname.inj (first.symm.trans named)
        exact is.symm
      · cases is
    · rename_i goal named
      exact absurd (by rw [RecordSet.type, named]; rfl) (plain other member)
    · cases is

/-- The aliases of an answer section stand in order: those in front of some records of the type lead
to the `owner` of the records. -/
def InOrder (question : Question) (sets : List RecordSet) (owner : Name) : Prop :=
  ∃ before set after, sets = before ++ set :: after ∧ set.type = question.type ∧
    (set.owner == owner) = true ∧
    (owner == Cache.destination question before question.name) = true

end Outcome

namespace Cache

open Outcome

/-- A response that leads to an `answer` about addresses over fewer aliases than are followed within
a cache, none of them one of a subtree, and that a cache with the default settings takes as it is.
The aliases stand in front of the records, and a server that speaks for the zone does not add
addresses of aliases. -/
structure Orderly (question : Question) (message : Message) (answer : Answer) (now : Duration) :
    Prop where
  asked : message.questions.head? = some question
  address : question.type.IsAddress
  usable : message.rcode = .noError ∨ message.rcode = .nxDomain
  classified : classify message question.name question.type = .answer answer
  short : ∃ found, follow (message.sets .answer) question.type Session.cachedAliases
    question.name = .found found
  own : ∀ record ∈ message.answer, record.recordClass = question.recordClass
  plain : ∀ record ∈ message.answer, record.type ≠ .dname
  lasting : ∀ place, ∀ record ∈ message.records place, record.ttl ≠ 0
  inOrder : InOrder question (message.sets .answer) answer.canonical
  humble : message.header.isAuthoritative = false ∨ ∀ set ∈ message.sets .additional,
    set.type = question.type → ∀ link ∈ message.sets .answer, link.type = .cname →
      ¬ (set.owner == link.owner) = true
  few : message.answer.length + message.additional.length < CacheSettings.default.maxNames
  clock : now.nanos + CacheSettings.default.maxLife.nanos ≤ Duration.longest.nanos
  absolute : ∀ name ∈ passed question message, name.absolute = true

namespace Orderly

variable {question : Question} {message : Message} {answer : Answer} {now : Duration}

theorem follows (orderly : Orderly question message answer now) :
    follow (message.sets .answer) question.type Session.cachedAliases question.name =
      .found answer := by
  obtain ⟨found, follows⟩ := orderly.short
  rwa [follow_unique (follow_of_classify orderly.classified) follows]

theorem own_sets (orderly : Orderly question message answer now) :
    ∀ set ∈ message.sets .answer, set.recordClass = question.recordClass :=
  RecordSet.forall_class_group (P := (· = question.recordClass)) orderly.own

theorem plain_sets (orderly : Orderly question message answer now) :
    ∀ set ∈ message.sets .answer, set.type ≠ .dname :=
  RecordSet.forall_type_group (P := (· ≠ .dname)) orderly.plain

/-- The `answer` section does not hold two `sets` of a `type` with the same `owner`. -/
theorem only (orderly : Orderly question message answer now) {set other : RecordSet}
    (member : set ∈ message.sets .answer) (among : other ∈ message.sets .answer)
    (types : set.type = other.type) {name : Name} (here : (set.owner == name) = true)
    (there : (other.owner == name) = true) : set = other := by
  refine RecordSet.eq_of_mem_group member among ?_
  rw [RecordSet.key, RecordSet.key, types, orderly.own_sets set member,
    orderly.own_sets other among, Name.beq_iff.mp here, Name.beq_iff.mp there]

/-- The `answer` section completes the answer with records that are kept, and to which the aliases
in front of them lead. -/
theorem exists_reply (orderly : Orderly question message answer now) :
    ∃ before set after, message.sets .answer = before ++ set :: after ∧ set.type = question.type ∧
      (set.owner == answer.canonical) = true ∧
      (answer.canonical == destination question before question.name) = true ∧
      (answerWalk question message).completed = true ∧
      .ofSet set (.ofAnswer message.header.isAuthoritative) ∈ replyWrites question message := by
  obtain ⟨before, set, after, sets, kind, here, leads⟩ := orderly.inOrder
  have member : set ∈ message.sets .answer := by rw [sets]; simp
  have plain : ∀ link ∈ before, link.type ≠ .dname := fun link among =>
    orderly.plain_sets link (sets ▸ List.mem_append_left _ among)
  have ordinary : ¬ set.type.IsQueryOnly := kind ▸ orderly.address.ordinary.1
  have answers : Answers question (destination question before question.name) set :=
    ⟨.inl kind, Name.beq_iff.mpr ((Name.beq_iff.mp here).trans (Name.beq_iff.mp leads))⟩
  obtain ⟨completed, written⟩ := @answered_of_destination question
    (.ofAnswer message.header.isAuthoritative) (.start question.name) before plain set
    (orderly.own_sets set member) ordinary answers after
  rw [← sets] at completed written
  exact ⟨before, set, after, sets, kind, here, leads, completed, written⟩

theorem completed (orderly : Orderly question message answer now) :
    (answerWalk question message).completed = true := by
  obtain ⟨-, -, -, -, -, -, -, completed, -⟩ := orderly.exists_reply
  exact completed

theorem writesOf_eq (orderly : Orderly question message answer now) :
    writesOf message = writesFor question message := writesOf_of_usable orderly.asked orderly.usable

theorem fits (orderly : Orderly question message answer now) : Fits message now :=
  fits_of_lasting orderly.asked orderly.usable
    (fun place => RecordSet.forall_ttl_group (P := (· ≠ 0)) (orderly.lasting place))
    (fun _ _ _ _ denied => by
      obtain ⟨set, is, -⟩ := servers_of_completed orderly.completed denied
      cases is)
    orderly.few orderly.clock orderly.absolute

/-- What is written for an address at the `name` of an alias that has none in the `answer` section
cannot be trusted. -/
theorem hidden (orderly : Orderly question message answer now) {name : Name} {link : RecordSet}
    (among : link ∈ message.sets .answer) (kind : link.type = .cname)
    (here : (link.owner == name) = true)
    (without : setsAt (message.sets .answer) name question.type = []) :
    ∀ write ∈ writesOf message, write.IsFor name question.type →
      ¬ Credibility.normal ≤ write.credibility := by
  intro write member isFor trusted
  rw [orderly.writesOf_eq] at member
  obtain reply | authority | ⟨set, present, -, -, rfl⟩ := mem_writesFor member
  · obtain ⟨set, present, rfl, -⟩ := mem_answerWrites reply
    have none := List.filter_eq_nil_iff.mp without set present
    exact none (decide_eq_true ⟨isFor.2, Name.beq_iff.mpr isFor.1⟩)
  · obtain ⟨set, rfl, servers⟩ := servers_of_completed orderly.completed authority
    exact orderly.address.ordinary.2.2 (isFor.2.symm.trans servers)
  · obtain humble | foreign := orderly.humble
    · rw [humble] at trusted
      exact absurd trusted (show ¬ Credibility.normal ≤ .ofAdditional false by decide)
    · refine foreign set present isFor.2 link among kind ?_
      exact Name.beq_iff.mpr (isFor.1.trans (Name.beq_iff.mp here).symm)

theorem setsAt_eq_singleton (orderly : Orderly question message answer now) {set : RecordSet}
    (member : set ∈ message.sets .answer) {name : Name} (here : (set.owner == name) = true) :
    setsAt (message.sets .answer) name set.type = [set] := by
  have nodup : (message.sets .answer).Nodup := (RecordSet.nodup_keys_group _).of_map
  refine List.perm_singleton.mp ((List.perm_ext_iff_of_nodup (nodup.filter _)
    (List.nodup_singleton set)).mpr fun other => ?_)
  rw [List.mem_filter, decide_eq_true_eq, List.mem_singleton]
  refine ⟨fun ⟨among, types, there⟩ => orderly.only among member types there here, ?_⟩
  rintro rfl
  exact ⟨member, rfl, here⟩

section

variable {before after : List RecordSet} {set : RecordSet} {name : Name}

/-- A `name` on the way to the records is an alias for the resolver and for lookups in the cache. -/
theorem exists_hop (orderly : Orderly question message answer now)
    (sets : message.sets .answer = before ++ after)
    (passes : name ∈ trail question before question.name)
    (further : ¬ (name == destination question before question.name) = true)
    (without : setsAt (message.sets .answer) name question.type = []) :
    ∃ link target, link.first = .cname target ∧ target ∈ trail question before question.name ∧
      aliasStep? (message.sets .answer) name = some target ∧
      (readings question.type name.suffixes).findSome?
        (·.view (filled message now) ⟨question.type, .normal, now⟩) = some (.cname link) := by
  have plain : ∀ link ∈ before, link.type ≠ .dname := fun link among =>
    orderly.plain_sets link (sets ▸ List.mem_append_left _ among)
  obtain ⟨link, among, target, first, here, recordClass, next, kept⟩ :=
    @Cache.exists_hop question (.ofAnswer message.header.isAuthoritative) (.start question.name)
      before plain name passes further
  have kind : link.type = .cname := by rw [RecordSet.type, first]; rfl
  have member : link ∈ message.sets .answer := sets ▸ List.mem_append_left _ among
  have written : .ofSet link (.ofAnswer message.header.isAuthoritative) ∈
      replyWrites question message := by
    rw [replyWrites, sets, (walk_append plain after).2]
    exact List.mem_append_left _ kept
  have foreign : RecordType.cname ≠ .ns := by decide
  obtain ⟨ttl, view⟩ := orderly.fits.view_of_reply orderly.writesOf_eq orderly.completed written
    ⟨name, .cname, .cname⟩ foreign ⟨Name.beq_iff.mp here, kind⟩ question.type
  -- What else is known of the name must not be found in front of the alias.
  have hidden := orderly.fits.view_of_hidden ⟨question.type, .normal, now⟩ rfl
    ⟨name, question.type, .answer⟩ (orderly.hidden member kind here without)
  refine ⟨{ link with ttl := ttl }, target, first, next, ?_, ?_⟩
  · exact aliasStep?_eq_some orderly.plain_sets member first here fun other present types there =>
      orderly.only present member (types.trans kind.symm) there here
  · obtain ⟨later, readings⟩ := exists_readings_eq question.type name
    rw [readings, List.findSome?_cons, hidden, List.findSome?_cons, view]
    rfl

/-- Lookups in the cache find the records at the `name` that carries them. -/
theorem exists_answer (orderly : Orderly question message answer now)
    (kind : set.type = question.type)
    (written : .ofSet set (.ofAnswer message.header.isAuthoritative) ∈
      replyWrites question message)
    (here : (set.owner == name) = true) :
    ∃ ttl, (readings question.type name.suffixes).findSome?
        (·.view (filled message now) ⟨question.type, .normal, now⟩) =
      some (.successful [{ set with ttl := ttl }]) := by
  have foreign := orderly.address.ordinary.2.2
  obtain ⟨ttl, view⟩ := orderly.fits.view_of_reply orderly.writesOf_eq orderly.completed written
    ⟨name, question.type, .answer⟩ foreign ⟨Name.beq_iff.mp here, kind⟩ question.type
  refine ⟨ttl, ?_⟩
  obtain ⟨later, readings⟩ := exists_readings_eq question.type name
  rw [readings, List.findSome?_cons, view]
  rfl

end

end Orderly

end Cache

namespace Session

open Outcome Cache

theorem followCached_of_lookup {type : RecordType} {now : Duration} {steps : Nat} {name : Name}
    {cache next : Cache} {found : Lookup}
    (looked : Cache.lookup name type .normal now cache = (.ok found, next)) :
    followCached type now (steps + 1) name cache =
      match resultFound? name found, aliasFound? name found with
      | some result, _ => (.ok (.hit result), next)
      | none, some target => followCached type now steps target next
      | none, none => (.ok (.miss name), next) := by
  rw [followCached, Op.bind_apply, looked]
  dsimp only
  cases resultFound? name found with
  | some result => rfl
  | none => cases aliasFound? name found <;> rfl

/-- From each name on the way to the records, lookups in the cache lead to the `answer` that the
resolver comes to. -/
theorem followCached_of_follow {question : Question} {message : Message} {answer : Answer}
    {now : Duration} (orderly : Orderly question message answer now)
    {before after : List RecordSet} {set : RecordSet}
    (sets : message.sets .answer = before ++ set :: after) (kind : set.type = question.type)
    (here : (set.owner == answer.canonical) = true)
    (leads : (answer.canonical == destination question before question.name) = true)
    (written : .ofSet set (.ofAnswer message.header.isAuthoritative) ∈
      replyWrites question message)
    {steps : Nat} {name : Name} (passes : name ∈ trail question before question.name)
    (follows : follow (message.sets .answer) question.type steps name = .found answer)
    {cache : Cache} (mirrors : Mirrors now (filled message now) cache) :
    ∃ ttl, (followCached question.type now steps name cache).1 = .ok (.hit (.ok
      ⟨answer.canonical, answer.sets.map fun set => { set with ttl := ttl }⟩)) := by
  have member : set ∈ message.sets .answer := by rw [sets]; simp
  -- the lookups and the resolver keep step with each other
  induction steps generalizing name cache with
  | zero => cases follows
  | succ steps ih =>
    have absolute : name.absolute = true := by
      refine orderly.absolute name ?_
      rw [passed, sets]
      exact trail_subset_append question before _ question.name passes
    obtain ⟨next, mirrored, looked⟩ := mirrors.lookup absolute orderly.address.ordinary.2.1 .normal
    unfold follow at follows
    dsimp only at follows
    split at follows
    · rename_i empty
      have without := List.isEmpty_iff.mp empty
      have further : ¬ (name == destination question before question.name) = true := by
        intro there
        have owner : (set.owner == name) = true := Name.beq_iff.mpr ((Name.beq_iff.mp here).trans
          ((Name.beq_iff.mp leads).trans (Name.beq_iff.mp there).symm))
        have filled := orderly.setsAt_eq_singleton member owner
        rw [kind, without] at filled
        cases filled
      obtain ⟨link, target, first, goes, step, found⟩ :=
        orderly.exists_hop sets passes further without
      rw [step] at follows
      have named : aliasFound? name (.cname link) = some target := by
        rw [aliasFound?, RecordSet.data, first]
        rfl
      rw [found] at looked
      rw [followCached_of_lookup looked]
      simp only [Option.getD_some, resultFound?, named]
      exact ih goes follows mirrored
    · obtain rfl := Trail.found.inj follows
      obtain ⟨ttl, found⟩ := orderly.exists_answer kind written here
      rw [found] at looked
      refine ⟨ttl, ?_⟩
      have carried := orderly.setsAt_eq_singleton member here
      rw [kind] at carried
      rw [followCached_of_lookup looked]
      simp only [Option.getD_some, resultFound?, carried]
      rfl

/-- The cache remembers an `answer` as the resolver has read it, provided that the aliases stand in
order. Let a response that is `Orderly` be added to an empty cache with the default settings. Then
to look the name up by `followCached` is a `hit` with the `canonical` name and the data that the
resolver has found, all of which live as long as each other, and nothing is denied by any `entry`.
-/
theorem followCached_addMessage {question : Question} {message : Message} {answer : Answer}
    {now : Duration} (orderly : Orderly question message answer now) :
    ∃ result cache, addMessage message now (.empty .default) = (.ok result, cache) ∧
      (∃ ttl, (followCached question.type now cachedAliases question.name cache).1 = .ok (.hit (.ok
        ⟨answer.canonical, answer.sets.map fun set => { set with ttl := ttl }⟩))) ∧
      ∀ name type entry, cache.find? name type = some entry → entry.isNegative = false := by
  obtain ⟨before, set, after, sets, kind, here, leads, -, written⟩ := orderly.exists_reply
  refine ⟨_, filled message now, Prod.ext orderly.fits.succeeds rfl, ?_,
    fun name type entry known => ?_⟩
  · refine followCached_of_follow orderly sets kind here leads written
      (mem_trail_self question before question.name) orderly.follows ?_
    exact ⟨Fits.wellFormed message now, orderly.fits.size_le, fun _ _ => rfl⟩
  · -- All that is there was written by the response, which writes no absence beside an answer.
    rw [Fits.filled_eq] at known
    obtain nothing | ⟨write, member, -, told, -⟩ :=
      find?_performAll (fun write => isWhole_of_mem_writesOf) known
    · cases nothing
    rw [orderly.writesOf_eq] at member
    unfold Entry.isNegative
    rw [told]
    cases write with
    | ofRecord record credibility | ofSet set credibility => rfl
    | ofAbsence absent kind ttl credibility =>
      have denied := mem_authorityWrites_of_absence member
      obtain ⟨set, is, -⟩ := servers_of_completed orderly.completed denied
      cases is

/-- A response with this `answer` section about addresses of a host with an alias, by a server that
also says who is responsible for the root. -/
def replying (answer : List Record) : Message where
  header := Header.empty.setResponse true
  questions := [.internet (.top 119) .a]
  answer := answer
  authority := [⟨.root, .internet, 60, .soa ⟨.root, .root, 1, 60, 60, 60, 60⟩⟩]
  additional := []

/-- The alias that leads to the `addressRecord`. -/
def aliasRecord : Record := ⟨.top 119, .internet, 60, .cname (.top 118)⟩

/-- The address that the `aliasRecord` leads to. -/
def addressRecord : Record := ⟨.top 118, .internet, 60, .a (.ofOctets 192 0 2 1)⟩

theorem followCached_addMessage_forwards :
    Orderly (.internet (.top 119) .a) (replying [aliasRecord, addressRecord])
        ⟨.top 118, [.ofRecord addressRecord]⟩ .zero ∧
      ∃ result cache, addMessage (replying [aliasRecord, addressRecord]) .zero (.empty .default) =
          (.ok result, cache) ∧
        (∃ ttl, (followCached .a .zero cachedAliases (.top 119) cache).1 = .ok (.hit (.ok
          ⟨.top 118, [{ RecordSet.ofRecord addressRecord with ttl := ttl }]⟩))) ∧
        ∀ name type entry, cache.find? name type = some entry → entry.isNegative = false := by
  have orderly : Orderly (.internet (.top 119) .a) (replying [aliasRecord, addressRecord])
      ⟨.top 118, [.ofRecord addressRecord]⟩ .zero := {
    asked := rfl
    address := .inl rfl
    usable := .inl rfl
    classified := by decide
    short := ⟨_, rfl⟩
    own := by decide
    plain := by decide
    lasting := fun place => by cases place <;> decide
    inOrder := ⟨[.ofRecord aliasRecord], .ofRecord addressRecord, [], by decide, by decide,
      by decide, by decide⟩
    humble := .inl (by decide)
    few := by decide
    clock := by decide
    absolute := by decide }
  exact ⟨orderly, followCached_addMessage orderly⟩

/-- Where `aliasRecord` stands behind its target, the cache denies the address that the resolver has
found. -/
theorem followCached_addMessage_backwards :
    classify (replying [addressRecord, aliasRecord]) (.top 119) .a =
        .answer ⟨.top 118, [.ofRecord addressRecord]⟩ ∧
      (followCached .a .zero cachedAliases (.top 119)
        (addMessage (replying [addressRecord, aliasRecord]) .zero (.empty .default)).2).1 =
          .ok (.hit (.error .noMatchingRecord)) :=
  ⟨by decide, by rfl⟩

end Session

end NameResolution
