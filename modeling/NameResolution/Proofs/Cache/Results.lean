import NameResolution.Proofs.Cache.Fresh
import NameResolution.Proofs.RecordSets

/-!
# What adding a response results in

Adding a response results in what a lookup for its question is meant to find next. The result comes
from the walk through the sections; the lookup reads what they have left in the cache.

* `Cache.Settles`: what a response can result in, with the write that says so.
* `Cache.tells_of_settles`: the response writes its result where a lookup reads.
* `Cache.Undisturbed`: the first place that shows a lookup anything shows the result.
* `Cache.lookup_addMessage`: then the lookup finds the result. It always does so for a negative
  result, and for an answer about anything but name servers.
-/

namespace NameResolution

namespace Cache

/-! ## What an answer section begins with -/

/-- An alias of the `name` that was asked for, or of a subtree with it, is among the `writes`. -/
inductive Redirects (question : Question) (credibility : Credibility) (writes : List Write) :
    Lookup → Prop
  | cname {set : RecordSet} (written : .ofSet set credibility ∈ writes) (kind : set.type = .cname)
    (here : (set.owner == question.name) = true) :
    Redirects question credibility writes (.cname set)
  | dname {set : RecordSet} (written : .ofSet set credibility ∈ writes) (kind : set.type = .dname)
    (below : question.name.IsBelow set.owner) : Redirects question credibility writes (.dname set)

/-- The record `set` is written, and it is the one that was asked for. -/
structure Replies (question : Question) (credibility : Credibility) (writes : List Write)
    (set : RecordSet) : Prop where
  written : .ofSet set credibility ∈ writes
  kind : set.type = question.type
  here : (set.owner == question.name) = true
  own : set.recordClass = question.recordClass

/-- How a `Walk` can stand before the rest of an answer section: at its start, or at an answer,
which the rest does not hold once more, or behind an alias of the `name` that was asked for. -/
inductive Stands (question : Question) (credibility : Credibility) (writes : List Write)
    (sets : List RecordSet) : Walk → Prop
  | start : Stands question credibility writes sets (.start question.name)
  | answered {set : RecordSet} {hosts : List Name}
    (replies : Replies question credibility writes set)
    (fresh : ∀ other ∈ sets, other.key ≠ set.key) :
    Stands question credibility writes sets
      ⟨question.name, false, true, some (.successful [set]), hosts⟩
  | redirected {name : Name} {completed : Bool} {found : Lookup} {hosts : List Name}
    (redirects : Redirects question credibility writes found) :
    Stands question credibility writes sets ⟨name, true, completed, some found, hosts⟩

section

variable {question : Question} {credibility : Credibility} {writes : List Write}
  {sets : List RecordSet} {set : RecordSet} {walk : Walk}

theorem Stands.shrink {fewer : List RecordSet} (subset : fewer ⊆ sets)
    (stands : Stands question credibility writes sets walk) :
    Stands question credibility writes fewer walk := by
  cases stands with
  | start => exact .start
  | answered replies fresh =>
    exact .answered replies fun other member => fresh other (subset member)
  | redirected redirects => exact .redirected redirects

/-- An answer is met by the `walk`. -/
theorem Stands.complete (stands : Stands question credibility writes (set :: sets) walk)
    (distinct : ((set :: sets).map RecordSet.key).Nodup) (single : question.type ≠ .any)
    (written : .ofSet set credibility ∈ writes) (own : set.recordClass = question.recordClass)
    (answers : Answers question walk.name set) :
    Stands question credibility writes sets (walk.complete set) := by
  have kind : set.type = question.type := answers.1.resolve_right single
  rw [List.map_cons, List.nodup_cons] at distinct
  cases stands with
  | start =>
    refine .answered ⟨written, kind, answers.2, own⟩ fun other member same => distinct.1 ?_
    exact List.mem_map.mpr ⟨other, member, same⟩
  | @answered first hosts replies fresh =>
    refine absurd ?_ (fresh set List.mem_cons_self)
    have owners := (Name.beq_iff.mp answers.2).trans (Name.beq_iff.mp replies.here).symm
    rw [RecordSet.key, RecordSet.key, owners, kind, own, replies.kind, replies.own]
  | redirected redirects => exact .redirected redirects

/-- An alias of the `name` is met. -/
theorem Stands.followCname (stands : Stands question credibility writes (set :: sets) walk)
    (written : .ofSet set credibility ∈ writes) (kind : set.type = .cname)
    (here : (set.owner == walk.name) = true) :
    Stands question credibility writes sets (walk.followCname set) := by
  cases stands with
  | start => exact .redirected (.cname written kind here)
  | answered replies fresh => exact .redirected (.cname written kind here)
  | redirected redirects => exact .redirected redirects

/-- An alias of a subtree is met, which the `walk` follows to the `next` name. -/
theorem Stands.followDname (stands : Stands question credibility writes (set :: sets) walk)
    (written : .ofSet set credibility ∈ writes) (kind : set.type = .dname)
    (below : walk.name.IsBelow set.owner) {next : Walk}
    (follows : walk.followDname set = some next) :
    Stands question credibility writes sets next := by
  obtain ⟨name, rfl⟩ := Walk.followDname_eq_some follows
  cases stands with
  | start => exact .redirected (.dname written kind below)
  | answered replies fresh => exact .redirected (.dname written kind below)
  | redirected redirects => exact .redirected redirects

/-- How the `walk` through an answer section stands in the end. -/
theorem stands_walked (distinct : (sets.map RecordSet.key).Nodup) (single : question.type ≠ .any)
    (subset : answerWrites question credibility walk sets ⊆ writes)
    (stands : Stands question credibility writes sets walk) :
    Stands question credibility writes [] (walked question walk sets) := by
  induction sets generalizing walk with
  | nil => exact stands
  | cons set sets ih =>
    have means := means_meaning walk question set
    have rest := distinct
    rw [List.map_cons, List.nodup_cons] at rest
    unfold answerWrites at subset
    unfold walked
    -- Each set is left out, completes the walk, or leads on from where it stands.
    cases meaning : walk.meaning question set with
    | nothing =>
      rw [meaning] at subset
      exact ih rest.2 subset (stands.shrink (List.subset_cons_self _ _))
    | answer =>
      rw [meaning] at subset means
      rw [List.cons_subset] at subset
      cases means with | answer own ordinary answers => ?_
      exact ih rest.2 subset.2 (stands.complete distinct single subset.1 own answers)
    | cname =>
      rw [meaning] at subset means
      rw [List.cons_subset] at subset
      cases means with | cname own other kind here => ?_
      exact ih rest.2 subset.2 (stands.followCname subset.1 kind here)
    | dname =>
      rw [meaning] at subset means
      rw [List.cons_subset] at subset
      cases means with | dname own other kind below => ?_
      cases follows : walk.followDname set with
      | none => exact stands.shrink (List.nil_subset _)
      | some next =>
        rw [follows] at subset
        exact ih rest.2 subset.2 (stands.followDname subset.1 kind below follows)

/-- What is found on a `walk` is not lost. -/
theorem isSome_found_walked (known : walk.found.isSome) :
    (walked question walk sets).found.isSome := by
  induction sets generalizing walk with
  | nil => exact known
  | cons set sets ih =>
    unfold walked
    cases walk.meaning question set with
    | nothing => exact ih known
    | answer =>
      refine ih ?_
      unfold Walk.complete
      dsimp only
      split
      · exact known
      · split <;> rfl
    | cname =>
      refine ih ?_
      unfold Walk.followCname
      dsimp only
      split
      · exact known
      · rfl
    | dname =>
      cases follows : walk.followDname set with
      | none => exact known
      | some next =>
        refine ih ?_
        obtain ⟨name, rfl⟩ := Walk.followDname_eq_some follows
        dsimp only
        split
        · exact known
        · rfl

/-- A walk that has found nothing is still at its start. All it can have met is an alias of a
subtree that makes the `name` too long. -/
theorem below_of_found_eq_none (none : (walked question (.start question.name) sets).found = none) :
    walked question (.start question.name) sets = .start question.name ∧
      ∀ write ∈ answerWrites question credibility (.start question.name) sets,
        question.name.IsBelow write.name := by
  induction sets with
  | nil => exact ⟨rfl, fun write member => absurd member List.not_mem_nil⟩
  | cons set sets ih =>
    have means := means_meaning (.start question.name) question set
    -- what is found at the first set would not be lost
    have lost {next : Walk} (found : next.found.isSome)
        (none : (walked question next sets).found = .none) : False := by
      have kept := @isSome_found_walked question sets next found
      rw [none] at kept
      cases kept
    unfold walked at none ⊢
    unfold answerWrites
    cases meaning : Walk.meaning (.start question.name) question set with
    | nothing =>
      rw [meaning] at none
      exact ih none
    | answer =>
      rw [meaning] at none
      exact (lost rfl none).elim
    | cname =>
      rw [meaning] at none
      exact (lost rfl none).elim
    | dname =>
      rw [meaning] at none means
      cases means with | dname own other kind below => ?_
      cases follows : Walk.followDname (.start question.name) set with
      | none =>
        refine ⟨rfl, fun write member => ?_⟩
        obtain rfl := List.mem_singleton.mp member
        exact below
      | some next =>
        rw [follows] at none
        refine (lost ?_ none).elim
        obtain ⟨name, rfl⟩ := Walk.followDname_eq_some follows
        rfl

end

/-! ## Results -/

/-- What a `message` can result in, with the write that says so. -/
inductive Settles (question : Question) (message : Message) : Lookup → Prop
  | replies {set : RecordSet}
    (replies : Replies question (.ofAnswer message.header.isAuthoritative)
      (replyWrites question message) set)
    (completed : (answerWalk question message).completed = true) :
    Settles question message (.successful [set])
  | redirects {found : Lookup}
    (redirects : Redirects question (.ofAnswer message.header.isAuthoritative)
      (replyWrites question message) found) : Settles question message found
  | referral {set : RecordSet} (kind : set.type = .ns)
    (around : question.name.IsSubdomainOf set.owner)
    (writes : authorityWrites question message (answerWalk question message) =
      [.ofSet set (.ofAuthority message.header.isAuthoritative)]) :
    Settles question message (.delegation set)
  | absence {ttl : UInt32} (unfound : (answerWalk question message).found = none)
    (hosts : (informed message (answerWalk question message)).hosts = [])
    (writes : authorityWrites question message (answerWalk question message) =
      [.ofAbsence question.name (if message.rcode = .nxDomain then .nothing else question.type) ttl
        (.ofAuthority message.header.isAuthoritative)]) :
    Settles question message (if message.rcode = .nxDomain then .nxDomain else .nxRrset)

theorem settles_meaningOf {question : Question} {message : Message}
    (first : message.questions.head? = some question)
    (usable : message.rcode = .noError ∨ message.rcode = .nxDomain)
    (single : question.type ≠ .any) : Settles question message (meaningOf message) := by
  have stands : Stands question (.ofAnswer message.header.isAuthoritative)
      (replyWrites question message) [] (answerWalk question message) :=
    stands_walked (RecordSet.nodup_keys_group _) single (List.Subset.refl _) .start
  have concludes := concludes question message (answerWalk question message)
  rw [meaningOf_eq first, if_pos usable]
  generalize same : answerWalk question message = walk at stands concludes
  generalize writes : authorityWrites question message walk = written at concludes
  generalize after : informed message walk = final at concludes
  rw [← same] at writes after
  cases stands with
  | start =>
    cases concludes with
    | servers completed => cases completed
    | answered completed => cases completed
    | referral unanswered exist foreign covers =>
      obtain ⟨-, around, kind⟩ := lastCovering_eq_some covers
      exact .referral kind around writes
    | absence unanswered last => exact .absence (by rw [same]; rfl) (by rw [after]; rfl) writes
  | answered replies fresh =>
    cases concludes with
    | servers completed => exact .replies replies (by rw [same])
    | answered completed => exact .replies replies (by rw [same])
    | referral unanswered => cases unanswered
    | absence unanswered => cases unanswered
  | redirected redirects => cases concludes <;> exact .redirects redirects

/-! ## Where results are written -/

/-- Some `Write` can be trusted, and shows a lookup for the `question` this finding at a place that
it reads. -/
def Tells (question : Question) (writes : List Write) (found : Lookup) : Prop :=
  ∃ write ∈ writes, Credibility.normal ≤ write.credibility ∧
    ∃ reading ∈ readings question.type question.name.suffixes,
      write.IsFor reading.name reading.type ∧ reading.aspect.shows write.finding = some found

theorem mem_readings_at {type : RecordType} {name : Name} {reading : Reading}
    (member : reading ∈ readingsAt type name) : reading ∈ readings type name.suffixes := by
  obtain ⟨ancestors, suffixes⟩ := suffixes_eq_cons name
  rw [suffixes]
  exact List.mem_append_left _ member

/-- All the ancestors of the `name` are read, whatever their case. -/
theorem exists_readings_above (type : RecordType) {name zone : Name} (below : name.IsBelow zone) :
    ∃ ancestor, ancestor.fold = zone.fold ∧
      ∀ reading ∈ readingsAbove ancestor, reading ∈ readings type name.suffixes := by
  obtain ⟨ancestor, member, same⟩ := Name.exists_suffix below.1
  obtain ⟨ancestors, suffixes⟩ := suffixes_eq_cons name
  rw [suffixes] at member
  obtain rfl | above := List.mem_cons.mp member
  · exact absurd (Name.beq_iff.mpr same) below.2
  · refine ⟨ancestor, same, fun reading among => ?_⟩
    rw [suffixes]
    exact List.mem_append_right _ (List.mem_flatMap.mpr ⟨ancestor, above, among⟩)

theorem normal_le_ofAnswer (authoritative : Bool) :
    Credibility.normal ≤ .ofAnswer authoritative := by
  cases authoritative <;> decide

theorem normal_le_ofAuthority (authoritative : Bool) :
    Credibility.normal ≤ .ofAuthority authoritative := by
  cases authoritative <;> decide

/-- A response writes its result where a lookup reads. -/
theorem tells_of_settles {question : Question} {message : Message} {found : Lookup}
    (settles : Settles question message found) :
    Tells question (writesFor question message) found := by
  have reply {write : Write} (member : write ∈ replyWrites question message) :
      write ∈ writesFor question message := replyWrites_subset question message member
  have authority {write : Write}
      (writes : authorityWrites question message (answerWalk question message) = [write]) :
      write ∈ writesFor question message := by
    refine authorityWrites_subset question message ?_
    rw [writes]
    exact List.mem_singleton_self _
  cases settles with
  | replies replies =>
    exact ⟨_, reply replies.written, normal_le_ofAnswer _, ⟨_, question.type, .answer⟩,
      mem_readings_at List.mem_cons_self, ⟨Name.beq_iff.mp replies.here, replies.kind⟩, rfl⟩
  | redirects redirects =>
    cases redirects with
    | cname written kind here =>
      exact ⟨_, reply written, normal_le_ofAnswer _, ⟨_, .cname, .cname⟩,
        mem_readings_at (by simp [readingsAt]), ⟨Name.beq_iff.mp here, kind⟩, rfl⟩
    | dname written kind below =>
      obtain ⟨ancestor, same, read⟩ := exists_readings_above question.type below
      exact ⟨_, reply written, normal_le_ofAnswer _, ⟨ancestor, .dname, .dname⟩,
        read _ List.mem_cons_self, ⟨same.symm, kind⟩, rfl⟩
  | @referral set kind around writes =>
    refine ⟨_, authority writes, normal_le_ofAuthority _, ?_⟩
    by_cases here : (question.name == set.owner) = true
    · exact ⟨⟨_, .ns, .servers⟩, mem_readings_at (by simp [readingsAt]),
        ⟨(Name.beq_iff.mp here).symm, kind⟩, rfl⟩
    · obtain ⟨ancestor, same, read⟩ := exists_readings_above question.type ⟨around, here⟩
      exact ⟨⟨ancestor, .ns, .servers⟩, read _ (by simp [readingsAbove]), ⟨same.symm, kind⟩, rfl⟩
  | absence unfound hosts writes =>
    refine ⟨_, authority writes, normal_le_ofAuthority _, ?_⟩
    by_cases missing : message.rcode = .nxDomain
    · exact ⟨⟨_, .nothing, .missing⟩, mem_readings_at (by simp [readingsAt]),
        ⟨rfl, if_pos missing⟩, by simp only [if_pos missing]; rfl⟩
    · exact ⟨⟨_, question.type, .answer⟩, mem_readings_at List.mem_cons_self,
        ⟨rfl, if_neg missing⟩, by simp only [if_neg missing]; rfl⟩

/-! ## Lookups -/

/-- Of some places, the first one at which a `write` can be trusted shows this finding only. -/
def Undisturbed (writes : List Write) (found : Lookup) : List Reading → Prop
  | [] => True
  | reading :: later =>
    (∀ write, Prevails writes reading.name reading.type write →
      Credibility.normal ≤ write.credibility →
        reading.aspect.shows write.finding = some found) ∧
    ((∃ write ∈ writes, write.IsFor reading.name reading.type ∧
      Credibility.normal ≤ write.credibility) ∨ Undisturbed writes found later)

/-- Where the first place that shows a lookup anything shows this finding, this is found. -/
theorem findSome?_of_undisturbed {message : Message} {now : Duration} (fits : Fits message now)
    (whole : ∀ write ∈ writesOf message,
      (write.entryAt now .default).findingAt now = write.finding) (type : RecordType)
    {found : Lookup} {places : List Reading}
    (undisturbed : Undisturbed (writesOf message) found places)
    (told : ∃ write ∈ writesOf message, Credibility.normal ≤ write.credibility ∧
      ∃ reading ∈ places, write.IsFor reading.name reading.type) :
    places.findSome? (·.view (filled message now) ⟨type, .normal, now⟩) = some found := by
  induction places with
  | nil =>
    obtain ⟨_, _, _, reading, member, _⟩ := told
    cases member
  | cons reading later ih =>
    obtain ⟨shows, rest⟩ := undisturbed
    -- a place that nothing can be seen at is passed
    have pass (hidden : ∀ write ∈ writesOf message, write.IsFor reading.name reading.type →
        ¬ Credibility.normal ≤ write.credibility) :
        later.findSome? (·.view (filled message now) ⟨type, .normal, now⟩) = some found := by
      have undisturbed := rest.resolve_left fun ⟨write, member, isFor, trusted⟩ =>
        hidden write member isFor trusted
      obtain ⟨write, member, trusted, place, among, isFor⟩ := told
      refine ih undisturbed ⟨write, member, trusted, place, ?_, isFor⟩
      obtain rfl | further := List.mem_cons.mp among
      · exact absurd trusted (hidden write member isFor)
      · exact further
    rw [List.findSome?_cons]
    obtain ⟨unwritten, none⟩ | ⟨write, prevails, view⟩ :=
      fits.view_cases ⟨type, .normal, now⟩ rfl reading
    · rw [none]
      exact pass fun write member isFor => absurd isFor (unwritten write member)
    · rw [view]
      by_cases trusted : Credibility.normal ≤ write.credibility
      · rw [if_pos trusted, whole write prevails.mem, shows write prevails trusted]
      · rw [if_neg trusted]
        exact pass fun other member isFor visible =>
          trusted (Nat.le_trans visible (prevails.most other member isFor))

theorem undisturbed_readings {writes : List Write} {found : Lookup} {type : RecordType}
    {name : Name}
    (undisturbed : ∀ later, Undisturbed writes found (readingsAt type name ++ later)) :
    Undisturbed writes found (readings type name.suffixes) := by
  obtain ⟨ancestors, suffixes⟩ := suffixes_eq_cons name
  rw [suffixes]
  exact undisturbed _

/-- Nothing can hide that a response tells of the absence of the `name` or of data. -/
theorem undisturbed_of_absence {question : Question} {message : Message} {ttl : UInt32}
    (typed : question.type ≠ .nothing) (unfound : (answerWalk question message).found = none)
    (hosts : (informed message (answerWalk question message)).hosts = [])
    (writes : authorityWrites question message (answerWalk question message) =
      [.ofAbsence question.name (if message.rcode = .nxDomain then .nothing else question.type) ttl
        (.ofAuthority message.header.isAuthoritative)]) :
    Undisturbed (writesFor question message)
      (if message.rcode = .nxDomain then .nxDomain else .nxRrset)
      (readings question.type question.name.suffixes) := by
  -- Nothing else is written for the name: the walk has left it behind or found nothing, and no host
  -- is mentioned.
  have only {write : Write} (member : write ∈ writesFor question message)
      (here : write.name.fold = question.name.fold) : write = .ofAbsence question.name
        (if message.rcode = .nxDomain then .nothing else question.type) ttl
        (.ofAuthority message.header.isAuthoritative) := by
    obtain reply | authority | ⟨set, -, -, mentioned, -⟩ := mem_writesFor member
    · have below := (below_of_found_eq_none unfound).2 write reply
      exact absurd (Name.beq_iff.mpr here.symm) below.2
    · rw [writes] at authority
      exact List.mem_singleton.mp authority
    · rw [hosts] at mentioned
      cases mentioned
  have member : .ofAbsence question.name
      (if message.rcode = .nxDomain then .nothing else question.type) ttl
      (.ofAuthority message.header.isAuthoritative) ∈ writesFor question message := by
    refine authorityWrites_subset question message ?_
    rw [writes]
    exact List.mem_singleton_self _
  refine undisturbed_readings fun later => ?_
  by_cases missing : message.rcode = .nxDomain
  · simp only [if_pos missing] at only member ⊢
    have unwritten {type : RecordType} (different : type ≠ .nothing) {write : Write}
        (prevails : Prevails (writesFor question message) question.name type write) : False := by
      obtain rfl := only prevails.mem prevails.isFor.1
      exact different prevails.isFor.2.symm
    have cname : RecordType.cname ≠ .nothing := by decide
    have ns : RecordType.ns ≠ .nothing := by decide
    refine ⟨fun write prevails _ => (unwritten typed prevails).elim, .inr
      ⟨fun write prevails _ => (unwritten cname prevails).elim, .inr
        ⟨fun write prevails _ => (unwritten ns prevails).elim, .inr
          ⟨fun write prevails _ => ?_, .inl ⟨_, member, ⟨rfl, rfl⟩, normal_le_ofAuthority _⟩⟩⟩⟩⟩
    rw [only prevails.mem prevails.isFor.1]
    rfl
  · simp only [if_neg missing] at only member ⊢
    refine ⟨fun write prevails trusted => ?_, .inl ⟨_, member, ⟨rfl, rfl⟩, normal_le_ofAuthority _⟩⟩
    rw [only prevails.mem prevails.isFor.1]
    rfl

theorem not_ofAnswer_le_ofAdditional (authoritative : Bool) :
    ¬ Credibility.ofAnswer authoritative ≤ .ofAdditional authoritative := by
  cases authoritative <;> decide

/-- Behind an answer section that answers the `question`, the authority section gives name servers
at most. -/
theorem servers_of_completed {question : Question} {message : Message} {walk : Walk}
    (completed : walk.completed = true) {write : Write}
    (member : write ∈ authorityWrites question message walk) :
    ∃ set, write = .ofSet set (.ofAuthority message.header.isAuthoritative) ∧ set.type = .ns := by
  obtain ⟨set, -, -, kind, is⟩ | ⟨unanswered, -⟩ := mem_authorityWrites member
  · exact ⟨set, is, kind⟩
  · rw [completed] at unanswered
    cases unanswered

/-- Records that an answer section gives prevail over all that the other sections say, if they are
no name servers. -/
theorem Prevails.eq_of_reply {question : Question} {message : Message}
    (completed : (answerWalk question message).completed = true) {set : RecordSet} {name : Name}
    {type : RecordType} (foreign : type ≠ .ns)
    (written : .ofSet set (.ofAnswer message.header.isAuthoritative) ∈ replyWrites question message)
    (isFor : Write.IsFor (.ofSet set (.ofAnswer message.header.isAuthoritative)) name type)
    {write : Write} (prevails : Prevails (writesFor question message) name type write) :
    write = .ofSet set (.ofAnswer message.header.isAuthoritative) := by
  have member : .ofSet set (.ofAnswer message.header.isAuthoritative) ∈
      writesFor question message := replyWrites_subset question message written
  have least := prevails.most _ member isFor
  obtain reply | authority | ⟨other, -, -, -, rfl⟩ := mem_writesFor prevails.mem
  · -- no two sets of the answer section are for the same name and type
    have own {set : RecordSet} (written : .ofSet set (.ofAnswer message.header.isAuthoritative) ∈
        replyWrites question message) :
        set ∈ message.sets .answer ∧ set.recordClass = question.recordClass := by
      obtain ⟨other, among, is, name, -, meaning, useful, means⟩ := mem_answerWrites written
      obtain rfl := (Write.ofSet.inj is).1
      cases means with
      | nothing => exact absurd rfl useful
      | answer own | cname own | dname own => exact ⟨among, own⟩
    obtain ⟨other, -, rfl, -⟩ := mem_answerWrites reply
    have owners : other.owner.fold = set.owner.fold := prevails.isFor.1.trans isFor.1.symm
    have types : other.type = set.type := prevails.isFor.2.trans isFor.2.symm
    rw [RecordSet.eq_of_mem_group (own reply).1 (own written).1]
    rw [RecordSet.key, RecordSet.key, owners, types, (own reply).2, (own written).2]
  · obtain ⟨other, rfl, servers⟩ := servers_of_completed completed authority
    exact absurd (prevails.isFor.2.symm.trans servers) foreign
  · exact absurd least (not_ofAnswer_le_ofAdditional _)

/-- What a lookup is shown of records that the answer section gives: a `set` of these. -/
theorem Fits.view_of_reply {question : Question} {message : Message} {now : Duration}
    (fits : Fits message now) (whole : writesOf message = writesFor question message)
    (completed : (answerWalk question message).completed = true) {set : RecordSet}
    (written : .ofSet set (.ofAnswer message.header.isAuthoritative) ∈ replyWrites question message)
    (reading : Reading) (foreign : reading.type ≠ .ns)
    (isFor : Write.IsFor (.ofSet set (.ofAnswer message.header.isAuthoritative)) reading.name
      reading.type) (type : RecordType) :
    ∃ ttl, reading.view (filled message now) ⟨type, .normal, now⟩ =
      reading.aspect.shows (.present { set with ttl := ttl }) := by
  have member : .ofSet set (.ofAnswer message.header.isAuthoritative) ∈ writesOf message :=
    whole ▸ replyWrites_subset question message written
  obtain ⟨unwritten, -⟩ | ⟨write, prevails, view⟩ :=
    fits.view_cases ⟨type, .normal, now⟩ rfl reading
  · exact absurd isFor (unwritten _ member)
  · rw [whole] at prevails
    obtain rfl := prevails.eq_of_reply completed foreign written isFor
    exact ⟨_, view.trans (if_pos (normal_le_ofAnswer _))⟩

/-- Nothing can hide an answer but servers of a zone with the same `name`. -/
theorem undisturbed_of_replies {question : Question} {message : Message} {set : RecordSet}
    (foreign : question.type ≠ .ns)
    (replies : Replies question (.ofAnswer message.header.isAuthoritative)
      (replyWrites question message) set)
    (completed : (answerWalk question message).completed = true) :
    Undisturbed (writesFor question message) (.successful [set])
      (readings question.type question.name.suffixes) := by
  have member : .ofSet set (.ofAnswer message.header.isAuthoritative) ∈
      writesFor question message :=
    replyWrites_subset question message replies.written
  have isFor : Write.IsFor (.ofSet set (.ofAnswer message.header.isAuthoritative)) question.name
      question.type := ⟨Name.beq_iff.mp replies.here, replies.kind⟩
  refine undisturbed_readings fun later => ⟨fun write prevails _ => ?_,
    .inl ⟨_, member, isFor, normal_le_ofAnswer _⟩⟩
  rw [prevails.eq_of_reply completed foreign replies.written isFor]
  rfl

/-- Nothing can hide a referral by a server that does not speak for the zone, unless name servers
are what is asked for. -/
theorem undisturbed_of_referral {question : Question} {message : Message} {set : RecordSet}
    (foreign : question.type ≠ .ns) (unanswered : message.answer = [])
    (humble : message.header.isAuthoritative = false) (kind : set.type = .ns)
    (writes : authorityWrites question message (answerWalk question message) =
      [.ofSet set (.ofAuthority message.header.isAuthoritative)]) :
    Undisturbed (writesFor question message) (.delegation set)
      (readings question.type question.name.suffixes) := by
  -- All else that is written comes from the additional section, which cannot be trusted.
  have only : ∀ write ∈ writesFor question message, Credibility.normal ≤ write.credibility →
      write = .ofSet set (.ofAuthority message.header.isAuthoritative) := by
    intro write member trusted
    have nothing : message.sets .answer = [] := by
      show RecordSet.group message.answer = []
      rw [unanswered]
      rfl
    rw [writesFor, nothing, writes, humble] at member
    obtain main | additional := List.mem_append.mp member
    · rw [humble]
      exact List.mem_singleton.mp main
    · obtain ⟨other, -, rfl⟩ := List.mem_map.mp additional
      exact absurd trusted (show ¬ Credibility.normal ≤ .ofAdditional false by decide)
  -- Every place shows the servers or nothing, as long as NS records are only read as servers.
  have shows (places : List Reading)
      (servers : ∀ reading ∈ places, reading.type = .ns → reading.aspect = .servers) :
      Undisturbed (writesFor question message) (.delegation set) places := by
    induction places with
    | nil => trivial
    | cons reading later ih =>
      rw [List.forall_mem_cons] at servers
      refine ⟨fun write prevails trusted => ?_, .inr (ih servers.2)⟩
      have same := only write prevails.mem trusted
      have isFor := prevails.isFor.2
      rw [same] at isFor ⊢
      rw [servers.1 (isFor.symm.trans kind)]
      rfl
  refine shows _ fun reading member type => ?_
  obtain ⟨ancestors, suffixes⟩ := suffixes_eq_cons question.name
  rw [suffixes] at member
  obtain here | above := List.mem_append.mp member
  · simp only [readingsAt, List.mem_cons, List.not_mem_nil, or_false] at here
    obtain rfl | rfl | rfl | rfl := here
    · exact absurd type foreign
    · cases type
    · rfl
    · cases type
  · obtain ⟨ancestor, -, among⟩ := List.mem_flatMap.mp above
    simp only [readingsAbove, List.mem_cons, List.not_mem_nil, or_false] at among
    obtain rfl | rfl := among
    · cases type
    · rfl

/-! ## Responses that fit -/

theorem writesOf_of_usable {question : Question} {message : Message}
    (asked : message.questions.head? = some question)
    (usable : message.rcode = .noError ∨ message.rcode = .nxDomain) :
    writesOf message = writesFor question message := by
  unfold writesOf
  cases questions : message.questions with
  | nil =>
    rw [questions] at asked
    cases asked
  | cons own others =>
    rw [questions] at asked
    obtain rfl := Option.some.inj asked
    exact if_pos usable

/-- The record `sets` that a response writes are in its sections. -/
theorem mem_sets {question : Question} {message : Message} {set : RecordSet}
    {credibility : Credibility}
    (member : .ofSet set credibility ∈ writesFor question message) :
    ∃ place, set ∈ message.sets place := by
  obtain reply | authority | ⟨own, among, -, -, is⟩ := mem_writesFor member
  · obtain ⟨own, among, is, -⟩ := mem_answerWrites reply
    obtain rfl := (Write.ofSet.inj is).1
    exact ⟨.answer, among⟩
  · obtain ⟨own, among, -, -, is⟩ | ⟨-, -, is⟩ := mem_authorityWrites authority
    · obtain rfl := (Write.ofSet.inj is).1
      exact ⟨.authority, among⟩
    · cases is
  · obtain rfl := (Write.ofSet.inj is).1
    exact ⟨.additional, among⟩

theorem length_answerWrites_le (question : Question) (credibility : Credibility) (walk : Walk)
    (sets : List RecordSet) :
    (answerWrites question credibility walk sets).length ≤ sets.length := by
  induction sets generalizing walk with
  | nil => exact Nat.le_refl _
  | cons set sets ih =>
    unfold answerWrites
    cases walk.meaning question set with
    | nothing => exact Nat.le_succ_of_le (ih walk)
    | answer => exact Nat.succ_le_succ (ih _)
    | cname => exact Nat.succ_le_succ (ih _)
    | dname =>
      cases walk.followDname set with
      | none => exact Nat.succ_le_succ (Nat.zero_le _)
      | some next => exact Nat.succ_le_succ (ih next)

theorem length_authorityWrites_le (question : Question) (message : Message) (walk : Walk) :
    (authorityWrites question message walk).length ≤ 1 := by
  have concludes := concludes question message walk
  generalize authorityWrites question message walk = writes at concludes ⊢
  generalize informed message walk = after at concludes
  cases concludes with
  | answered => exact Nat.zero_le _
  | servers | referral | absence => exact Nat.le_refl _

/-- A `message` writes no more than its records, and once more that something is absent. -/
theorem length_writesFor_le (question : Question) (message : Message) :
    (writesFor question message).length ≤
      message.answer.length + 1 + message.additional.length := by
  have answer := Nat.le_trans (length_answerWrites_le question
    (.ofAnswer message.header.isAuthoritative) (.start question.name) (message.sets .answer))
    (RecordSet.length_group_le message.answer)
  have authority := length_authorityWrites_le question message (answerWalk question message)
  have additional : (additionalWrites (informed message (answerWalk question message)).hosts
      (.ofAdditional message.header.isAuthoritative) (message.sets .additional)).length ≤
      message.additional.length := by
    rw [additionalWrites, List.length_map]
    exact Nat.le_trans (List.length_filter_le _ _) (RecordSet.length_group_le message.additional)
  unfold writesFor
  rw [List.length_append, List.length_append]
  omega

/-- An empty cache has room and time for all that a response writes, if all its record `sets` last,
and if what it denies it denies for some time. -/
theorem fits_of_lasting {question : Question} {message : Message} {now : Duration}
    (asked : message.questions.head? = some question)
    (usable : message.rcode = .noError ∨ message.rcode = .nxDomain)
    (lasting : ∀ place, ∀ set ∈ message.sets place, set.ttl ≠ 0)
    (denied : ∀ name type ttl credibility, .ofAbsence name type ttl credibility ∈
      authorityWrites question message (answerWalk question message) → ttl ≠ 0)
    (few : message.answer.length + message.additional.length < CacheSettings.default.maxNames)
    (clock : now.nanos + CacheSettings.default.maxLife.nanos ≤ Duration.longest.nanos)
    (absolute : ∀ name ∈ passed question message, name.absolute = true) : Fits message now where
  room := by
    have length := length_writesFor_le question message
    rw [writesOf_of_usable asked usable]
    omega
  clock := clock
  lasting := fun write member => by
    have whole := isWhole_of_mem_writesOf member
    rw [writesOf_of_usable asked usable] at member
    cases write with
    | ofRecord record credibility => cases whole
    | ofSet set credibility =>
      obtain ⟨place, among⟩ := mem_sets member
      exact lasting place set among
    | ofAbsence name type ttl credibility =>
      exact denied name type ttl credibility (mem_authorityWrites_of_absence member)
  absolute := fun own first name passed => by
    obtain rfl := Option.some.inj (asked.symm.trans first)
    exact absolute name passed

/-! ## Regular responses -/

/-- A response that a cache with the default settings takes as it is: it answers or denies a
`question` for an ordinary type; no time to live is zero or too long; an SOA record of some minimum
goes with what it denies; and there are not too many records for the cache, too little time left on
the clock, or relative names on the way. -/
structure Regular (question : Question) (message : Message) (now : Duration) : Prop where
  asked : message.questions.head? = some question
  ordinary : ¬ question.type.IsQueryOnly
  typed : question.type ≠ .nothing
  usable : message.rcode = .noError ∨ message.rcode = .nxDomain
  lasting : ∀ place, ∀ record ∈ message.records place, record.ttl ≠ 0 ∧
    Duration.ofSeconds record.ttl.toNat ≤ CacheSettings.default.maxLife
  minimum : ∀ record ∈ message.authority, ∀ soa, record.data = .soa soa → soa.minimum ≠ 0
  denied : (answerWalk question message).completed = true ∨
    message.rcode = .noError ∧
      (lastCovering (message.sets .authority) (finalName question message) .ns).isSome ∨
    (lastCovering (message.sets .authority) (finalName question message) .soa).isSome
  few : message.answer.length + message.additional.length < CacheSettings.default.maxNames
  clock : now.nanos + CacheSettings.default.maxLife.nanos ≤ Duration.longest.nanos
  absolute : ∀ name ∈ passed question message, name.absolute = true

namespace Regular

variable {question : Question} {message : Message} {now : Duration}

/-- The times to live of all record `sets` are within the limits. -/
theorem lasting_sets (regular : Regular question message now) (place : Section) :
    ∀ set ∈ message.sets place, set.ttl ≠ 0 ∧
      Duration.ofSeconds set.ttl.toNat ≤ CacheSettings.default.maxLife :=
  RecordSet.forall_ttl_group
    (P := fun ttl => ttl ≠ 0 ∧ Duration.ofSeconds ttl.toNat ≤ CacheSettings.default.maxLife)
    (regular.lasting place)

/-- What an SOA `set` denies is denied for some time, if the response is `Regular`. -/
theorem absenceTtl_ne_zero (regular : Regular question message now) {soa : RecordSet}
    (member : soa ∈ message.sets .authority) : absenceTtlOfSet soa ≠ 0 := by
  have minimum : ∀ set ∈ message.sets .authority, ∀ data, set.first = .soa data →
      data.minimum ≠ 0 :=
    RecordSet.forall_mem_group regular.minimum fun record _ set next pushed each data first =>
      each data ((RecordSet.first_push? pushed).symm.trans first)
  have lasting := (regular.lasting_sets .authority soa member).1
  unfold absenceTtlOfSet
  split
  · rename_i data first
    by_cases shorter : soa.ttl ≤ data.minimum
    · rwa [show min soa.ttl data.minimum = soa.ttl from if_pos shorter]
    · rw [show min soa.ttl data.minimum = data.minimum from if_neg shorter]
      exact minimum soa member data first
  · exact lasting

theorem writesOf_eq (regular : Regular question message now) :
    writesOf message = writesFor question message := writesOf_of_usable regular.asked regular.usable

/-- An SOA record goes with what is denied, so the `ttl` of an `ofAbsence` is not zero. -/
theorem denied_ne_zero (regular : Regular question message now) {name : Name} {type : RecordType}
    {ttl : UInt32} {credibility : Credibility}
    (authority : .ofAbsence name type ttl credibility ∈
      authorityWrites question message (answerWalk question message)) : ttl ≠ 0 := by
  have denied := regular.denied
  rw [← name_answerWalk] at denied
  obtain ⟨set, -, -, -, is⟩ | ⟨unanswered, final, is⟩ := mem_authorityWrites authority
  · cases is
  -- A regular response denies only with an SOA record, whose TTL and minimum are not zero.
  obtain ⟨soa, covers⟩ : ∃ soa, lastCovering (message.sets .authority)
      (answerWalk question message).name .soa = some soa := by
    obtain completed | ⟨fine, servers⟩ | soa := denied
    · rw [completed] at unanswered
      cases unanswered
    · obtain missing | soa | none := final
      · rw [fine] at missing
        cases missing
      · exact Option.isSome_iff_exists.mp soa
      · rw [none] at servers
        cases servers
    · exact Option.isSome_iff_exists.mp soa
  have same := (Write.ofAbsence.inj is).2.2.1
  rw [covers] at same
  rw [same]
  exact regular.absenceTtl_ne_zero (lastCovering_eq_some covers).1

/-- An empty cache has room and time for all of a `Regular` response. -/
theorem fits (regular : Regular question message now) : Fits message now :=
  fits_of_lasting regular.asked regular.usable
    (fun place set member => (regular.lasting_sets place set member).1)
    (fun _ _ _ _ => regular.denied_ne_zero) regular.few regular.clock regular.absolute

/-- A `write` is found as it was written. -/
theorem findingAt_entryAt (regular : Regular question message now) {write : Write}
    (member : write ∈ writesOf message) :
    (write.entryAt now .default).findingAt now = write.finding := by
  have whole := isWhole_of_mem_writesOf member
  have ends := (regular.fits.lasts write member).ends
  rw [regular.writesOf_eq] at member
  cases write with
  | ofRecord record credibility => cases whole
  | ofSet set credibility =>
    obtain ⟨place, among⟩ := mem_sets member
    exact findingAt_ofSet ends (regular.lasting_sets place set among).2
  | ofAbsence name type ttl credibility => rfl

end Regular

/-- What adding a response results in, `meaningOf` it, is what a `lookup` for its `question` finds
next. Let a response that is `Regular` be added to an empty cache with the `default` settings. That
never fails, and a lookup at this time finds the same, provided that the result is `Undisturbed`:
the first of the places that the lookup reads that shows it anything shows the result. This is
always so if the name or the data is absent. It is so for any type but that of name servers if the
data is found, and if a server that does not speak for the zone answers with a referral alone. -/
theorem lookup_addMessage {question : Question} {message : Message} {now : Duration}
    (regular : Regular question message now)
    (clear : (meaningOf message).isNegative = true ∨
      (meaningOf message).isSuccessful = true ∧ question.type ≠ .ns ∨
      message.answer = [] ∧ message.header.isAuthoritative = false ∧ question.type ≠ .ns ∨
      Undisturbed (writesOf message) (meaningOf message)
        (readings question.type question.name.suffixes)) :
    (addMessage message now (.empty .default)).1 = .ok (meaningOf message) ∧
      (lookup question.name question.type .normal now
        (addMessage message now (.empty .default)).2).1 = .ok (meaningOf message) := by
  have fits := regular.fits
  have single : question.type ≠ .any := fun any => regular.ordinary (by rw [any]; decide)
  have settles := settles_meaningOf regular.asked regular.usable single
  -- One case for each kind of result. In each, the conditions that do not fit it are ruled out.
  have undisturbed : Undisturbed (writesOf message) (meaningOf message)
      (readings question.type question.name.suffixes) := by
    rw [regular.writesOf_eq] at clear ⊢
    generalize meaningOf message = found at settles clear
    cases settles with
    | replies replies completed =>
      obtain negative | ⟨-, foreign⟩ | ⟨-, -, foreign⟩ | undisturbed := clear
      · cases negative
      · exact undisturbed_of_replies foreign replies completed
      · exact undisturbed_of_replies foreign replies completed
      · exact undisturbed
    | redirects redirects =>
      obtain negative | ⟨successful, -⟩ | ⟨unanswered, -, -⟩ | undisturbed := clear
      · cases redirects <;> cases negative
      · cases redirects <;> cases successful
      · have nothing : replyWrites question message = [] := by
          show answerWrites _ _ _ (RecordSet.group message.answer) = []
          rw [unanswered]
          rfl
        rw [nothing] at redirects
        cases redirects with
        | cname written | dname written => cases written
      · exact undisturbed
    | referral kind around writes =>
      obtain negative | ⟨successful, -⟩ | ⟨unanswered, humble, foreign⟩ | undisturbed := clear
      · cases negative
      · cases successful
      · exact undisturbed_of_referral foreign unanswered humble kind writes
      · exact undisturbed
    | absence unfound hosts writes =>
      exact undisturbed_of_absence regular.typed unfound hosts writes
  obtain ⟨write, member, trusted, reading, among, isFor, -⟩ := tells_of_settles settles
  rw [← regular.writesOf_eq] at member
  have found := findSome?_of_undisturbed fits (fun write => regular.findingAt_entryAt) question.type
    undisturbed ⟨write, member, trusted, reading, among, isFor⟩
  have absolute := regular.absolute _ (mem_trail_self question _ question.name)
  refine ⟨fits.succeeds, ?_⟩
  show (lookup question.name question.type .normal now (filled message now)).1 = _
  rw [fits.lookup_eq absolute single, found]
  rfl

theorem lookup_addMessage_stray : Regular (.internet (.top 119) .a) stray .zero ∧
    (addMessage stray .zero (.empty .default)).1 = .ok (meaningOf stray) ∧
      (lookup (.top 119) .a .normal .zero (addMessage stray .zero (.empty .default)).2).1 =
        .ok (meaningOf stray) := by
  have regular : Regular (.internet (.top 119) .a) stray .zero := {
    asked := rfl
    ordinary := by decide
    typed := by decide
    usable := .inl rfl
    lasting := fun place => by cases place <;> decide
    minimum := fun record member soa data => by
      obtain rfl := List.mem_singleton.mp member
      cases data
    denied := .inl (by decide)
    few := by decide
    clock := by decide
    absolute := by decide }
  exact ⟨regular, lookup_addMessage regular (.inr (.inl ⟨by decide, by decide⟩))⟩

/-- A referral in response to a question for name servers (`ns`). -/
def delegated : Message where
  header := Header.empty.setResponse true
  questions := [.internet (.top 119) .ns]
  answer := []
  authority := [⟨.top 119, .internet, 60, .ns (.top 110)⟩]
  additional := []

/-- Adding a referral results in a `delegation` also where the `lookup` takes the servers for the
data that was asked for. -/
theorem lookup_addMessage_delegated : Regular (.internet (.top 119) .ns) delegated .zero ∧
    ∃ set, (addMessage delegated .zero (.empty .default)).1 = .ok (.delegation set) ∧
      (lookup (.top 119) .ns .normal .zero (addMessage delegated .zero (.empty .default)).2).1 =
        .ok (.successful [set]) := by
  refine ⟨{
    asked := rfl
    ordinary := by decide
    typed := by decide
    usable := .inl rfl
    lasting := fun place => by cases place <;> decide
    minimum := fun record member soa data => by
      obtain rfl := List.mem_singleton.mp member
      cases data
    denied := .inr (.inl (by decide))
    few := by decide
    clock := by decide
    absolute := by decide }, _, rfl, rfl⟩

end Cache

end NameResolution
