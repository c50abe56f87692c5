import NameResolution.Proofs.Cache.Eviction
import NameResolution.Proofs.Cache.Filling
import NameResolution.Proofs.Cache.Trails

/-!
# What a response may touch

Whoever sends a response chooses all its sections. It can still change only what it is entitled to.

* `Cache.Entitled`: the names and types that a response to a question may write to.
* `Cache.entitled_of_mem_writesFor`: all its writes keep to them.
* `Cache.addMessage_keeps_to_entitled`: adding a response leaves everything else as it is, and says
  of the name at the end of the way alone that something is absent.
-/

namespace NameResolution

namespace Cache

/-! ## Entitlement -/

/-- The writes of the answer section and of the authority section of a `message`. -/
def mainWrites (question : Question) (message : Message) : List Write :=
  answerWrites question (.ofAnswer message.header.isAuthoritative) (.start question.name)
    (message.sets .answer) ++ authorityWrites question message (answerWalk question message)

/-- The record `set` is accepted from the answer section or the authority section of a response. -/
def Accepts (question : Question) (message : Message) (set : RecordSet) : Prop :=
  ∃ credibility, .ofSet set credibility ∈ mainWrites question message

/-- The names that are passed when the aliases in the answer section of a `message` are followed. -/
def passed (question : Question) (message : Message) : List Name :=
  trail question (message.sets .answer) question.name

/-- The name to which the aliases in the answer section of a `message` lead in the end. -/
def finalName (question : Question) (message : Message) : Name :=
  destination question (message.sets .answer) question.name

/-- What a response to a `question` may touch: what is asked for at the names that are passed, the
aliases that lead on from there, the name servers of a zone around the last `name`, the absence of
data or of this name, and the addresses of hosts that are mentioned in what is accepted. -/
inductive Entitled (question : Question) (message : Message) (name : Name) : RecordType → Prop
  | answer {stop : Name} {type : RecordType} (passes : stop ∈ passed question message)
    (same : (name == stop) = true) (asked : type = question.type ∨ question.type = .any) :
    Entitled question message name type
  | redirection {stop : Name} (passes : stop ∈ passed question message)
    (same : (name == stop) = true) : Entitled question message name .cname
  | subtree {stop : Name} (passes : stop ∈ passed question message) (below : stop.IsBelow name) :
    Entitled question message name .dname
  | servers (around : (finalName question message).IsSubdomainOf name) :
    Entitled question message name .ns
  | noData (same : (name == finalName question message) = true) :
    Entitled question message name question.type
  | noName (same : (name == finalName question message) = true) :
    Entitled question message name .nothing
  | host {set : RecordSet} {host : Name} {type : RecordType}
    (accepts : Accepts question message set) (mentions : host ∈ set.additionalNames)
    (same : (name == host) = true) (address : type.IsAddress) : Entitled question message name type

/-- Names that differ in case only share what a response may touch, so `Entitled` does not tell them
apart. -/
theorem Entitled.congr {question : Question} {message : Message} {name other : Name}
    {type : RecordType} (same : name.fold = other.fold)
    (entitled : Entitled question message name type) : Entitled question message other type := by
  have equal {third : Name} (equals : (name == third) = true) : (other == third) = true := by
    rw [Name.beq_iff] at equals ⊢
    rw [← same, equals]
  cases entitled with
  | answer passes here asked => exact .answer passes (equal here) asked
  | redirection passes here => exact .redirection passes (equal here)
  | subtree passes below => exact .subtree passes (below.congr_zone same)
  | servers around => exact .servers (around.congr_zone same)
  | noData here => exact .noData (equal here)
  | noName here => exact .noName (equal here)
  | host accepts mentions here address => exact .host accepts mentions (equal here) address

/-! ## The writes of a response -/

theorem name_answerWalk (question : Question) (message : Message) :
    (answerWalk question message).name = finalName question message :=
  name_walked question (.start question.name) (message.sets .answer)

theorem lastCovering_eq_some {sets : List RecordSet} {name : Name} {type : RecordType}
    {set : RecordSet} (found : lastCovering sets name type = some set) :
    set ∈ sets ∧ name.IsSubdomainOf set.owner ∧ set.type = type := by
  have member := List.mem_of_getLast? found
  rw [List.mem_filter] at member
  exact ⟨member.1, by simpa using member.2⟩

/-- What is written for an `authority` section are name servers of a zone around the `name` at the
end of the `walk`, or that this name or data of it is absent. -/
theorem mem_authorityWrites {question : Question} {message : Message} {walk : Walk} {write : Write}
    (member : write ∈ authorityWrites question message walk) :
    (∃ set ∈ message.sets .authority, walk.name.IsSubdomainOf set.owner ∧ set.type = .ns ∧
      write = .ofSet set (.ofAuthority message.header.isAuthoritative)) ∨
    walk.completed = false ∧
      (message.rcode = .nxDomain ∨
        (lastCovering (message.sets .authority) walk.name .soa).isSome ∨
        lastCovering (message.sets .authority) walk.name .ns = none) ∧
      write = .ofAbsence walk.name (if message.rcode = .nxDomain then .nothing else question.type)
        (((lastCovering (message.sets .authority) walk.name .soa).map absenceTtlOfSet).getD 0)
        (.ofAuthority message.header.isAuthoritative) := by
  have servers {set : RecordSet}
      (covers : lastCovering (message.sets .authority) walk.name .ns = some set)
      (is : write = .ofSet set (.ofAuthority message.header.isAuthoritative)) :
      ∃ set ∈ message.sets .authority, walk.name.IsSubdomainOf set.owner ∧ set.type = .ns ∧
        write = .ofSet set (.ofAuthority message.header.isAuthoritative) := by
    obtain ⟨among, around, kind⟩ := lastCovering_eq_some covers
    exact ⟨set, among, around, kind, is⟩
  have concludes := concludes question message walk
  generalize authorityWrites question message walk = writes at member concludes
  generalize informed message walk = after at concludes
  cases concludes with
  | servers completed fine covers => exact .inl (servers covers (List.mem_singleton.mp member))
  | answered completed => cases member
  | referral unanswered exist foreign covers =>
    exact .inl (servers covers (List.mem_singleton.mp member))
  | absence unanswered final => exact .inr ⟨unanswered, final, List.mem_singleton.mp member⟩

/-- What is written for the `answer` section is `Entitled`. -/
theorem entitled_of_mem_answerWrites {question : Question} {message : Message}
    {credibility : Credibility} {write : Write}
    (member : write ∈ answerWrites question credibility (.start question.name)
      (message.sets .answer)) : Entitled question message write.name write.type := by
  obtain ⟨set, -, rfl, stop, passes, meaning, useful, means⟩ := mem_answerWrites member
  cases means with
  | nothing useless => exact absurd rfl useful
  | answer own ordinary answers => exact .answer passes answers.2 answers.1
  | cname own other kind here =>
    show Entitled question message set.owner set.type
    rw [kind]
    exact .redirection passes here
  | dname own other kind below =>
    show Entitled question message set.owner set.type
    rw [kind]
    exact .subtree passes below

/-- What is written for the authority section is `Entitled`. -/
theorem entitled_of_mem_authorityWrites {question : Question} {message : Message} {write : Write}
    (member : write ∈ authorityWrites question message (answerWalk question message)) :
    Entitled question message write.name write.type := by
  obtain ⟨set, -, around, kind, rfl⟩ | ⟨-, -, rfl⟩ := mem_authorityWrites member
  · rw [name_answerWalk] at around
    show Entitled question message set.owner set.type
    rw [kind]
    exact .servers around
  · have here : ((answerWalk question message).name == finalName question message) = true := by
      rw [name_answerWalk, Name.beq_self]
    show Entitled question message (answerWalk question message).name _
    simp only [Write.type]
    split
    · exact .noName here
    · exact .noData here

/-- The `hosts` that are remembered on the way are mentioned in what is written there. -/
theorem mem_hosts_walked {question : Question} {credibility : Credibility} {walk : Walk}
    {sets : List RecordSet} {host : Name} (member : host ∈ (walked question walk sets).hosts) :
    host ∈ walk.hosts ∨ ∃ set, .ofSet set credibility ∈
      answerWrites question credibility walk sets ∧ host ∈ set.additionalNames := by
  induction sets generalizing walk with
  | nil => exact .inl member
  | cons set sets ih =>
    unfold walked at member
    unfold answerWrites
    cases meaning : walk.meaning question set with
    | nothing =>
      rw [meaning] at member
      exact ih member
    | answer =>
      rw [meaning] at member
      obtain known | ⟨other, written, mentions⟩ := ih member
      · obtain before | here := List.mem_append.mp known
        · exact .inl before
        · exact .inr ⟨set, List.mem_cons_self, here⟩
      · exact .inr ⟨other, List.mem_cons_of_mem _ written, mentions⟩
    | cname =>
      rw [meaning] at member
      obtain known | ⟨other, written, mentions⟩ := ih member
      · exact .inl known
      · exact .inr ⟨other, List.mem_cons_of_mem _ written, mentions⟩
    | dname =>
      rw [meaning] at member
      cases follows : walk.followDname set with
      | none =>
        rw [follows] at member
        exact .inl member
      | some next =>
        rw [follows] at member
        obtain ⟨name, rfl⟩ := Walk.followDname_eq_some follows
        obtain known | ⟨other, written, mentions⟩ := ih member
        · exact .inl known
        · exact .inr ⟨other, List.mem_cons_of_mem _ written, mentions⟩

/-- The `hosts` whose addresses are of use are mentioned in what is accepted. -/
theorem accepts_of_mem_hosts {question : Question} {message : Message} {host : Name}
    (member : host ∈ (informed message (answerWalk question message)).hosts) :
    ∃ set, Accepts question message set ∧ host ∈ set.additionalNames := by
  -- A host is mentioned on the way through the answer section or by the servers at its end.
  have onTheWay (known : host ∈ (answerWalk question message).hosts) :
      ∃ set, Accepts question message set ∧ host ∈ set.additionalNames := by
    obtain before | ⟨set, written, mentions⟩ := mem_hosts_walked known
    · cases before
    · exact ⟨set, ⟨_, List.mem_append_left _ written⟩, mentions⟩
  have atTheEnd {set : RecordSet} {credibility : Credibility}
      (writes : authorityWrites question message (answerWalk question message) =
        [.ofSet set credibility])
      (known : host ∈ (answerWalk question message).hosts ++ set.additionalNames) :
      ∃ set, Accepts question message set ∧ host ∈ set.additionalNames := by
    obtain before | here := List.mem_append.mp known
    · exact onTheWay before
    · refine ⟨set, ⟨credibility, List.mem_append_right _ ?_⟩, here⟩
      rw [writes]
      exact List.mem_singleton_self _
  have concludes := concludes question message (answerWalk question message)
  generalize informed message (answerWalk question message) = walk at member concludes
  generalize same : authorityWrites question message (answerWalk question message) = writes
    at concludes
  cases concludes with
  | servers completed fine covers => exact atTheEnd same member
  | answered completed => exact onTheWay member
  | referral unanswered exist foreign covers => exact atTheEnd same member
  | absence unanswered final => exact onTheWay member

/-- A response writes what stands in its answer section, what stands in its authority section, and
addresses of `hosts` from its `additional` section. -/
theorem mem_writesFor {question : Question} {message : Message} {write : Write}
    (member : write ∈ writesFor question message) : write ∈ replyWrites question message ∨
    write ∈ authorityWrites question message (answerWalk question message) ∨
    ∃ set ∈ message.sets .additional, set.type.IsAddress ∧
      (informed message (answerWalk question message)).hosts.contains set.owner ∧
      write = .ofSet set (.ofAdditional message.header.isAuthoritative) := by
  obtain main | additional := List.mem_append.mp member
  · obtain reply | authority := List.mem_append.mp main
    · exact .inl reply
    · exact .inr (.inl authority)
  · obtain ⟨set, among, rfl⟩ := List.mem_map.mp additional
    obtain ⟨member, useful⟩ := List.mem_filter.mp among
    rw [decide_eq_true_eq] at useful
    exact .inr (.inr ⟨set, member, useful.1, useful.2, rfl⟩)

theorem replyWrites_subset (question : Question) (message : Message) :
    replyWrites question message ⊆ writesFor question message := fun _ member =>
  List.mem_append_left _ (List.mem_append_left _ member)

theorem authorityWrites_subset (question : Question) (message : Message) :
    authorityWrites question message (answerWalk question message) ⊆ writesFor question message :=
  fun _ member => List.mem_append_left _ (List.mem_append_right _ member)

/-- All that a response to a `question` writes is `Entitled`. -/
theorem entitled_of_mem_writesFor {question : Question} {message : Message} {write : Write}
    (member : write ∈ writesFor question message) :
    Entitled question message write.name write.type := by
  obtain reply | authority | ⟨set, -, address, mentioned, rfl⟩ := mem_writesFor member
  · exact entitled_of_mem_answerWrites reply
  · exact entitled_of_mem_authorityWrites authority
  · obtain ⟨host, mentioned, same⟩ := List.contains_iff_exists_mem_beq.mp mentioned
    obtain ⟨source, accepts, mentions⟩ := accepts_of_mem_hosts mentioned
    exact .host accepts mentions same address

/-! ## Adding a response -/

theorem writesOf_eq {message : Message} {question : Question}
    (first : message.questions.head? = some question) :
    writesOf message = writesFor question message ∨ writesOf message = [] := by
  unfold writesOf
  cases questions : message.questions with
  | nil => exact .inr rfl
  | cons own others =>
    rw [questions] at first
    obtain rfl := Option.some.inj first
    simp only
    split
    · exact .inl rfl
    · exact .inr rfl

theorem mem_writesOf {message : Message} {write : Write} (member : write ∈ writesOf message) :
    ∃ question, message.questions.head? = some question ∧ write ∈ writesFor question message := by
  cases questions : message.questions with
  | nil =>
    rw [writesOf, questions] at member
    cases member
  | cons question others =>
    have first : message.questions.head? = some question := by rw [questions]; rfl
    obtain writes | none := writesOf_eq first
    · exact ⟨question, rfl, writes ▸ member⟩
    · rw [none] at member
      cases member

/-- The result of adding a response to a `question`. -/
theorem meaningOf_eq {message : Message} {question : Question}
    (first : message.questions.head? = some question) :
    meaningOf message = if message.rcode = .noError ∨ message.rcode = .nxDomain then
      (informed message (answerWalk question message)).found.getD .unknown else .unknown := by
  unfold meaningOf
  cases questions : message.questions with
  | nil =>
    rw [questions] at first
    cases first
  | cons own others =>
    rw [questions] at first
    obtain rfl := Option.some.inj first
    rfl

theorem addMessage_apply (message : Message) (now : Duration) (cache : Cache) :
    addMessage message now cache = ((performAll now (writesOf message) cache).1.map
      fun _ => meaningOf message, (performAll now (writesOf message) cache).2) := by
  rw [addMessage_eq, Op.bind_apply]
  rcases performAll now (writesOf message) cache with ⟨_ | _, _⟩ <;> rfl

/-- A response writes whole record `sets` of its own, of types that can be kept. Of the name at the
end of the way it may write that something is absent: the name itself, or data of the `type` that
was asked for. -/
theorem mem_writesOf_cases {message : Message} {write : Write}
    (member : write ∈ writesOf message) :
    (∃ set credibility, write = .ofSet set credibility ∧ ¬ set.type.IsQueryOnly ∧
      ∃ place, set ∈ message.sets place) ∨
    ∃ question, message.questions.head? = some question ∧ ∃ type ttl credibility,
      write = .ofAbsence (finalName question message) type ttl credibility ∧
      (type = .nothing ∨ type = question.type) := by
  obtain ⟨question, first, member⟩ := mem_writesOf member
  -- One case for each section of the response.
  obtain reply | authority | ⟨set, among, address, -, is⟩ := mem_writesFor member
  · obtain ⟨set, among, is, name, -, meaning, useful, means⟩ := mem_answerWrites reply
    refine .inl ⟨set, _, is, ?_, .answer, among⟩
    cases means with
    | nothing useless => exact absurd rfl useful
    | answer own ordinary answers => exact ordinary
    | cname own other kind here => rw [kind]; decide
    | dname own other kind below => rw [kind]; decide
  · obtain ⟨set, among, -, kind, is⟩ | ⟨-, -, is⟩ := mem_authorityWrites authority
    · refine .inl ⟨set, _, is, ?_, .authority, among⟩
      rw [kind]
      decide
    · rw [name_answerWalk] at is
      refine .inr ⟨question, first, _, _, _, is, ?_⟩
      split
      · exact .inl rfl
      · exact .inr rfl
  · exact .inl ⟨set, _, is, address.ordinary.1, .additional, among⟩

/-- That something is absent is said by the authority section only, so an `ofAbsence` is among the
`authorityWrites`. -/
theorem mem_authorityWrites_of_absence {question : Question} {message : Message} {name : Name}
    {type : RecordType} {ttl : UInt32} {credibility : Credibility}
    (member : .ofAbsence name type ttl credibility ∈ writesFor question message) :
    .ofAbsence name type ttl credibility ∈
      authorityWrites question message (answerWalk question message) := by
  obtain reply | authority | ⟨set, -, -, -, is⟩ := mem_writesFor member
  · obtain ⟨set, -, is, -⟩ := mem_answerWrites reply
    cases is
  · exact authority
  · cases is

theorem isWhole_of_mem_writesOf {message : Message} {write : Write}
    (member : write ∈ writesOf message) : write.IsWhole := by
  obtain ⟨set, credibility, rfl, -⟩ | ⟨question, -, type, ttl, credibility, rfl, -⟩ :=
    mem_writesOf_cases member <;> trivial

/-- The writes of a response keep to what it is `Entitled` to. -/
theorem entitled_of_isFor {message : Message} {question : Question}
    (first : message.questions.head? = some question) {write : Write}
    (member : write ∈ writesOf message) {name : Name} {type : RecordType}
    (isFor : write.IsFor name type) : Entitled question message name type := by
  obtain ⟨own, known, written⟩ := mem_writesOf member
  obtain rfl := Option.some.inj (first.symm.trans known)
  have entitled := entitled_of_mem_writesFor written
  rw [isFor.2] at entitled
  exact entitled.congr isFor.1

/-- Nothing is there that the response is not `Entitled` to but what was there before. -/
theorem find?_of_not_entitled {message : Message} {question : Question}
    (first : message.questions.head? = some question) {name : Name} {type : RecordType}
    (foreign : ¬ Entitled question message name type) {now : Duration} {cache : Cache}
    {entry : Entry}
    (found : (performAll now (writesOf message) cache).2.find? name type = some entry) :
    cache.find? name type = some entry := by
  obtain before | ⟨write, member, isFor, -⟩ :=
    find?_performAll (fun write => isWhole_of_mem_writesOf) found
  · exact before
  · exact absurd (entitled_of_isFor first member isFor) foreign

/-- An entry that counts and that the response is not `Entitled` to still counts, unless its `name`
is evicted. -/
theorem current?_of_not_entitled {message : Message} {question : Question}
    (first : message.questions.head? = some question) {name : Name} {type : RecordType}
    (foreign : ¬ Entitled question message name type) {now : Duration} {cache : Cache}
    (shape : cache.WellFormed) (kept : ¬ WritesEvict now name (writesOf message) cache) :
    (performAll now (writesOf message) cache).2.current? name type now =
      cache.current? name type now :=
  current?_performAll_of_untouched (Nat.le_refl _)
    (fun _ member isFor => foreign (entitled_of_isFor first member isFor)) shape kept

/-- A response touches nothing but what it is `Entitled` to. Let a response be added to any cache by
`addMessage`. For every `name` and `type` that the response is not entitled to, no entry is there
`after` that was not there before, and what counted still counts as it was, unless the writes drop
the name for want of room (`WritesEvict`). Without a question, and with a response code that tells
of a failure, nothing changes. And whatever is there `after` of the absence of data was known before
or is about the `finalName`, to which the aliases lead in the end. -/
theorem addMessage_keeps_to_entitled {cache after : Cache} (shape : cache.WellFormed)
    {message : Message} {now : Duration} (added : (addMessage message now cache).2 = after) :
    (∀ question, message.questions.head? = some question → ∀ name type,
      ¬ Entitled question message name type →
        (∀ entry, after.find? name type = some entry → cache.find? name type = some entry) ∧
        (WritesEvict now name (writesOf message) cache ∨
          after.current? name type now = cache.current? name type now)) ∧
    (message.questions = [] ∨ message.rcode ≠ .noError ∧ message.rcode ≠ .nxDomain →
      after = cache) ∧
    ∀ name type entry, after.find? name type = some entry → entry.isNegative = true →
      cache.find? name type = some entry ∨
      ∃ question, message.questions.head? = some question ∧
        (name == finalName question message) = true ∧
        (type = .nothing ∨ type = question.type) := by
  rw [addMessage_apply] at added
  subst added
  refine ⟨fun question first name type foreign => ⟨fun entry found => ?_, ?_⟩, fun useless => ?_,
    fun name type entry found negative => ?_⟩
  · exact find?_of_not_entitled first foreign found
  · by_cases kept : WritesEvict now name (writesOf message) cache
    · exact .inl kept
    · exact .inr (current?_of_not_entitled first foreign shape kept)
  · -- Without a question and after a failure nothing is written at all.
    have nothing : writesOf message = [] := by
      unfold writesOf
      obtain none | failed := useless
      · rw [none]
      · cases message.questions with
        | nil => rfl
        | cons question questions => exact if_neg (not_or.mpr failed)
    rw [nothing]
    rfl
  · obtain before | ⟨write, member, isFor, said, -⟩ :=
      find?_performAll (fun write => isWhole_of_mem_writesOf) found
    · exact .inl before
    refine .inr ?_
    have kind := type_of_find? found
    unfold Entry.isNegative at negative
    unfold Entry.type at kind
    cases finding : entry.finding with
    | present set => simp [finding] at negative
    | absent other =>
      rw [finding] at said kind
      obtain rfl : other = type := kind
      -- Of the writes of a response only one is about the absence of data.
      obtain ⟨set, credibility, rfl, -⟩ | ⟨question, first, kind, ttl, credibility, rfl, types⟩ :=
        mem_writesOf_cases member
      · cases said
      · obtain rfl := Finding.absent.inj said
        exact ⟨question, first, Name.beq_iff.mpr isFor.1.symm, types⟩

/-- A response that brings along the address of a name server, and as `stray` data the address of a
host that nothing in it mentions. -/
def stray : Message where
  header := Header.empty.setResponse true
  questions := [.internet (.top 119) .a]
  answer := [⟨.top 119, .internet, 60, .a (.ofOctets 192 0 2 1)⟩]
  authority := [⟨.top 119, .internet, 60, .ns (.top 110)⟩]
  additional := [⟨.top 110, .internet, 60, .a (.ofOctets 192 0 2 2)⟩,
    ⟨.top 118, .internet, 60, .a (.ofOctets 192 0 2 3)⟩]

theorem addMessage_keeps_to_entitled_stray :
    let known : Write := .ofRecord ⟨.top 118, .internet, 60, .a .loopback⟩ .nonAuthAnswer
    let cache := (known.perform .zero (.empty .default)).2
    let after := (addMessage stray .zero cache).2
    (after.find? (.top 110) .a).isSome ∧ (cache.current? (.top 118) .a .zero).isSome ∧
      after.current? (.top 118) .a .zero = cache.current? (.top 118) .a .zero := by
  intro known cache after
  have shape : cache.WellFormed := known.wellFormed_perform (wellFormed_empty _) .zero
  have passes : passed (.internet (.top 119) .a) stray = [.top 119] := by decide
  have hosts : (mainWrites (.internet (.top 119) .a) stray).flatMap
      (fun write => write.data.filterMap RecordData.additionalName?) = [.top 110] := by decide
  have foreign (type : RecordType) (entitled : Entitled (.internet (.top 119) .a) stray (.top 118)
      type) : type ≠ .a := by
    cases entitled with
    | answer passing same asked =>
      rw [passes, List.mem_singleton] at passing
      subst passing
      exact absurd same (by decide)
    | redirection | subtree | servers | noName => decide
    | noData same => exact absurd same (by decide)
    | @host _ other _ accepts mentions same address =>
      obtain ⟨credibility, accepted⟩ := accepts
      have only : other ∈ [Name.top 110] := hosts ▸ List.mem_flatMap.mpr ⟨_, accepted, mentions⟩
      obtain rfl := List.mem_singleton.mp only
      exact absurd same (by decide)
  have added : (addMessage stray .zero cache).2 = after := rfl
  obtain ⟨others, -, -⟩ := addMessage_keeps_to_entitled shape added
  obtain ⟨-, evicts | same⟩ := others _ rfl _ .a fun entitled => foreign .a entitled rfl
  · obtain ⟨gone, -⟩ | ⟨gone, -⟩ | ⟨gone, -⟩ | none := evicts
    · exact absurd gone (by decide)
    · exact absurd gone (by decide)
    · exact absurd gone (by decide)
    · cases none
  · exact ⟨by decide, by decide, same⟩

end Cache

end NameResolution
