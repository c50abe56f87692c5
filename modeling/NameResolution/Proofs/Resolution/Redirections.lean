import NameResolution.Proofs.Cache.Entitlement
import NameResolution.Proofs.RecordSets
import NameResolution.Proofs.Resolution.Referrals

/-!
# Two readers of a referral

A response that refers to the servers of a zone is read twice: the resolver takes it for a referral
(`Outcome.classify`), and the cache keeps the servers as a delegation (`Cache.addMessage`).

* `Outcome.Covers`: the name servers of a zone around a name.
* `Outcome.Refers.closer`: the resolver goes to the closest of these zones.
* `Cache.addMessage_of_referral`: the cache keeps the zone that the authority section comes to last.
  The two are the same if the closest zone is the last one.
-/

namespace NameResolution

namespace Outcome

/-- The record `set` holds the servers of a zone around the `name`. -/
def Covers (name : Name) (set : RecordSet) : Prop := set.type = .ns ∧ name.IsSubdomainOf set.owner

/-- Without an answer section, `follow` leads nowhere. -/
theorem follow_nil (type : RecordType) (steps : Nat) (name : Name) :
    follow [] type steps name = .ends name := by
  cases steps <;> rfl

/-- What a `response` is like that is taken for a `referral`. -/
structure Refers (response : Message) (name : Name) (referral : Referral) : Prop where
  unanswered : response.sets .answer = []
  exist : response.rcode ≠ .nxDomain
  foreign : (response.sets .authority).any (·.type = .soa) = false
  closest : closest ((response.sets .authority).filter fun set =>
    set.type = .ns ∧ name.IsSubdomainOf set.owner) = some referral.servers

theorem refers_of_classify {response : Message} {name : Name} {type : RecordType}
    {referral : Referral} (refers : classify response name type = .referral referral) :
    Refers response name referral := by
  have means := means_classify response name type
  rw [refers] at means
  cases means with | referral leads exist same delegated unanswered => ?_
  rw [unanswered, follow_nil] at leads
  obtain rfl := Trail.ends.inj leads
  unfold delegated? at delegated
  split at delegated
  · cases delegated
  · rename_i foreign
    exact ⟨unanswered, exist, by simpa using foreign, delegated⟩

theorem eq_nil_of_closest {sets : List RecordSet} (none : closest sets = none) : sets = [] := by
  cases sets with
  | nil => rfl
  | cons set sets =>
    unfold closest at none
    split at none
    · cases none
    · split at none <;> cases none

/-- No `set` has more labels than the one that is chosen. -/
theorem labelCount_le_of_closest {sets : List RecordSet} {set : RecordSet}
    (found : closest sets = some set) :
    ∀ other ∈ sets, other.owner.labelCount ≤ set.owner.labelCount := by
  -- The induction is on the sets, of which the last one with the most labels is chosen.
  induction sets generalizing set with
  | nil => cases found
  | cons first sets ih =>
    rw [List.forall_mem_cons]
    unfold closest at found
    cases rest : closest sets with
    | none =>
      rw [rest] at found
      obtain rfl := Option.some.inj found
      rw [eq_nil_of_closest rest]
      exact ⟨Nat.le_refl _, fun other member => absurd member List.not_mem_nil⟩
    | some best =>
      rw [rest] at found
      have most := ih rest
      dsimp only at found
      split at found
      · rename_i less
        obtain rfl := Option.some.inj found
        exact ⟨Nat.le_refl _, fun other member =>
          Nat.le_trans (most other member) (Nat.le_of_lt less)⟩
      · rename_i more
        obtain rfl := Option.some.inj found
        exact ⟨Nat.not_lt.mp more, most⟩

/-- Zones around one `name` with as many labels are the same. -/
theorem fold_eq_of_labelCount {name zone other : Name} (around : name.IsSubdomainOf zone)
    (inside : name.IsSubdomainOf other) (same : zone.labelCount = other.labelCount) :
    zone.fold = other.fold := by
  have absolute : zone.absolute = other.absolute := around.1.symm.trans inside.1
  have length : zone.fold.labels.length = other.fold.labels.length := by
    unfold Name.labelCount at same
    rw [absolute] at same
    simpa [Name.fold] using same
  have suffix := List.suffix_of_suffix_length_le around.2 inside.2 (Nat.le_of_eq length)
  exact Name.eq_of_labels (suffix.eq_of_length length) absolute

/-- The `servers` that a `response` refers to are those of the closest `zone` around the `name` that
its `authority` section offers. -/
theorem Refers.closer {response : Message} {name : Name} {referral : Referral}
    (refers : Refers response name referral)
    (internet : ∀ record ∈ response.authority, record.recordClass = .internet) :
    referral.servers ∈ response.sets .authority ∧ Covers name referral.servers ∧
      ∀ set ∈ response.sets .authority, Covers name set → set = referral.servers ∨
        set.owner.labelCount < referral.zone.labelCount := by
  have own : ∀ set ∈ response.sets .authority, set.recordClass = .internet :=
    RecordSet.forall_class_group (P := (· = .internet)) internet
  obtain ⟨member, covers⟩ := List.mem_filter.mp (mem_of_closest refers.closest)
  rw [decide_eq_true_eq] at covers
  refine ⟨member, covers, fun set among around => ?_⟩
  have most := labelCount_le_of_closest refers.closest set
    (List.mem_filter.mpr ⟨among, decide_eq_true around⟩)
  by_cases same : set.owner.labelCount = referral.zone.labelCount
  · refine .inl (RecordSet.eq_of_mem_group among member ?_)
    have owner := fold_eq_of_labelCount around.2 covers.2 same
    rw [RecordSet.key, RecordSet.key, owner, around.1, covers.1, own set among, own _ member]
  · exact .inr (Nat.lt_of_le_of_ne most same)

end Outcome

namespace Cache

open Outcome

theorem lastCovering_ne_none {sets : List RecordSet} {name : Name} {type : RecordType}
    {set : RecordSet} (member : set ∈ sets) (around : name.IsSubdomainOf set.owner)
    (kind : set.type = type) : lastCovering sets name type ≠ none := by
  intro none
  have empty := List.getLast?_eq_none_iff.mp none
  rw [List.filter_eq_nil_iff] at empty
  exact empty set member (decide_eq_true ⟨around, kind⟩)

/-- The cache takes a `referral` to be to the servers that the `authority` section comes to last. -/
theorem concludes_of_refers {message : Message} {question : Question} {referral : Referral}
    (refers : Refers message question.name referral)
    (internet : ∀ record ∈ message.authority, record.recordClass = .internet) :
    ∃ last, lastCovering (message.sets .authority) question.name .ns = some last ∧
      (informed message (answerWalk question message)).found = some (.delegation last) ∧
      authorityWrites question message (answerWalk question message) =
        [.ofSet last (.ofAuthority message.header.isAuthoritative)] := by
  have start : answerWalk question message = .start question.name := by
    rw [answerWalk, refers.unanswered]
    rfl
  obtain ⟨member, covers, -⟩ := refers.closer internet
  have concludes := concludes question message (answerWalk question message)
  generalize authorityWrites question message (answerWalk question message) = writes at concludes
  generalize informed message (answerWalk question message) = walk at concludes
  rw [start] at concludes
  cases concludes with
  | servers completed => cases completed
  | answered completed => cases completed
  | referral unanswered exist foreign found => exact ⟨_, found, rfl, rfl⟩
  | absence unanswered final =>
    -- A referral has no SOA record and the name exists, so nothing is taken to be absent.
    obtain missing | soa | none := final
    · exact absurd missing refers.exist
    · obtain ⟨set, found⟩ := Option.isSome_iff_exists.mp soa
      obtain ⟨among, -, kind⟩ := lastCovering_eq_some found
      exact absurd kind (by simpa using List.any_eq_false.mp refers.foreign set among)
    · exact absurd none (lastCovering_ne_none member covers.2 covers.1)

/-- A response that refers to other servers as `Refers` says is added without fail. -/
theorem performAll_of_refers {message : Message} {question : Question}
    (first : message.questions.head? = some question) {referral : Referral}
    (refers : Refers message question.name referral)
    (internet : ∀ record ∈ message.authority, record.recordClass = .internet) {now : Duration}
    {cache : Cache}
    (clock : now.nanos + cache.settings.maxLife.nanos ≤ Duration.longest.nanos) :
    (performAll now (writesOf message) cache).1 = .ok () := by
  -- All writes are of record sets, which are accepted if they can be kept.
  have sets : ∀ write ∈ writesOf message,
      ∃ set credibility, write = .ofSet set credibility ∧ ¬ set.type.IsQueryOnly := by
    intro write member
    obtain ⟨set, credibility, is, ordinary, -⟩ |
      ⟨question, known, type, ttl, credibility, rfl, -⟩ := mem_writesOf_cases member
    · exact ⟨set, credibility, is, ordinary⟩
    · obtain ⟨own, known, member⟩ := mem_writesOf member
      obtain rfl := Option.some.inj (first.symm.trans known)
      obtain ⟨last, -, -, writes⟩ := concludes_of_refers refers internet
      have said := mem_authorityWrites_of_absence member
      rw [writes] at said
      cases List.mem_singleton.mp said
  refine performAll_eq_ok (fun write => isWhole_of_mem_writesOf) (fun write member => ?_)
    fun write member => ?_
  · obtain ⟨set, credibility, rfl, ordinary⟩ := sets write member
    exact if_neg ordinary
  · obtain ⟨set, credibility, rfl, -⟩ := sets write member
    exact Write.ends_of_most clock

/-- A response that refers to the servers of another zone is read in two ways. The resolver goes to
the closest zone around the name that the `authority` section offers. By `addMessage`, the cache
takes the zone that the section comes to last for the one that the name is delegated to; it makes
nothing of a response that tells of a failure. So they agree if and only if the closest zone comes
last. -/
theorem addMessage_of_referral {message : Message} {question : Question}
    (first : message.questions.head? = some question)
    (internet : ∀ record ∈ message.authority, record.recordClass = .internet) {now : Duration}
    {cache : Cache}
    (clock : now.nanos + cache.settings.maxLife.nanos ≤ Duration.longest.nanos)
    {referral : Referral}
    (refers : classify message question.name question.type = .referral referral) :
    (referral.servers ∈ message.sets .authority ∧ Covers question.name referral.servers ∧
      ∀ set ∈ message.sets .authority, Covers question.name set → set = referral.servers ∨
        set.owner.labelCount < referral.zone.labelCount) ∧
    ∃ last, lastCovering (message.sets .authority) question.name .ns = some last ∧
      (addMessage message now cache).1 =
        .ok (if message.rcode = .noError then .delegation last else .unknown) := by
  replace refers := refers_of_classify refers
  obtain ⟨last, covers, found, -⟩ := concludes_of_refers refers internet
  refine ⟨refers.closer internet, last, covers, ?_⟩
  rw [addMessage_apply, performAll_of_refers first refers internet clock, meaningOf_eq first, found]
  simp only [refers.exist, or_false]
  rfl

/-- A response that offers a zone and the root as places to go on, in its `authority` section. -/
def offering (authority : List Record) : Message where
  header := Header.empty.setResponse true
  questions := [.internet (.top 119) .a]
  answer := []
  authority := authority
  additional := []

/-- The servers of the zone that `offering` leads to. -/
def zoneServers : Record := ⟨.top 119, .internet, 3600, .ns (.top 110)⟩

/-- The servers of the `root`. -/
def rootServers : Record := ⟨.root, .internet, 3600, .ns (.top 109)⟩

theorem addMessage_of_referral_downwards : ∃ referral,
    classify (offering [rootServers, zoneServers]) (.top 119) .a = .referral referral ∧
      (addMessage (offering [rootServers, zoneServers]) .zero (.empty .default)).1 =
        .ok (.delegation referral.servers) := by
  have refers : classify (offering [rootServers, zoneServers]) (.top 119) .a =
      .referral ⟨.ofRecord zoneServers, []⟩ := by decide
  obtain ⟨-, last, covers, result⟩ := addMessage_of_referral
    (show (offering [rootServers, zoneServers]).questions.head? = some (.internet (.top 119) .a)
      from rfl) (by decide)
    (show Duration.zero.nanos + (Cache.empty .default).settings.maxLife.nanos ≤
      Duration.longest.nanos by decide) refers
  have closest : lastCovering ((offering [rootServers, zoneServers]).sets .authority) (.top 119)
      .ns = some (.ofRecord zoneServers) := by decide
  obtain rfl := Option.some.inj (covers.symm.trans closest)
  exact ⟨_, refers, result⟩

/-- Where the closest `zone` does not come last, the resolver and the cache go different ways. -/
theorem addMessage_of_referral_upwards : ∃ referral set,
    classify (offering [zoneServers, rootServers]) (.top 119) .a = .referral referral ∧
      (addMessage (offering [zoneServers, rootServers]) .zero (.empty .default)).1 =
        .ok (.delegation set) ∧
      referral.zone = .top 119 ∧ set.owner = .root :=
  ⟨⟨.ofRecord zoneServers, []⟩, .ofRecord rootServers, by decide, by rfl, rfl, rfl⟩

end Cache

end NameResolution
