import NameResolution.Proofs.Cache.Entitlement

/-!
# What a response takes away

A response that tells of no error and has no SOA record proves nothing to be absent. Still it can
take data away: if it says nothing about the question, this alone is taken for the absence of data,
for no time at all.

* `Cache.Supplies`: data counts for a name and type. `Cache.supplies_performAll`: it does so after
  writes that bring data or give way.
* `Cache.Scene.Sustains`: data has a life as long as any data counts.
  `Cache.Scene.sustains_run`: this is so in every run.
* `Cache.Discards`: what a response takes away that says nothing about its question.
* `Cache.Scene.addMessage_retains`: nothing else is taken away, and all of this is.
-/

namespace NameResolution

namespace Cache

/-! ## Data that counts -/

/-- Data counts for a `name` and `type` that is credible enough. -/
def Supplies (cache : Cache) (now : Duration) (name : Name) (type : RecordType)
    (level : Credibility) : Prop :=
  ∃ entry, cache.current? name type now = some entry ∧ entry.isNegative = false ∧
    level ≤ entry.credibility

/-- The `write` brings data that has some time to live. -/
def Write.Brings (write : Write) : Prop := write.ttl ≠ 0 ∧ ∃ set, write.finding = .present set

theorem Write.most_of_present {write : Write} {set : RecordSet}
    (present : write.finding = .present set) : write.most = CacheSettings.maxLife := by
  cases write with
  | ofRecord record credibility => rfl
  | ofSet set credibility => rfl
  | ofAbsence name type ttl credibility => cases present

/-- What counts for a `name` and `type` after a `write` that takes its place. -/
theorem Write.Brings.perform {write : Write} (brings : write.Brings) (whole : write.IsWhole)
    {now : Duration} {cache : Cache} (shape : cache.WellFormed)
    (lives : 0 < cache.settings.maxLife.nanos) {name : Name} {type : RecordType} {entry : Entry}
    (counts : cache.current? name type now = some entry) (positive : entry.isNegative = false)
    (isFor : write.IsFor name type) (above : entry.credibility ≤ write.credibility)
    (kept : ¬ Evicts (write.perform now) cache name) :
    (write.perform now cache).2.Supplies now name type entry.credibility := by
  obtain ⟨lasting, set, present⟩ := brings
  cases accepted : write.refusal? with
  | some misuse =>
    rw [write.perform_apply, accepted]
    exact ⟨entry, counts, positive, Nat.le_refl _⟩
  | none =>
    have existing : cache.current? write.name write.type now = some entry := by
      rw [current?_congr cache isFor.1, isFor.2, counts]
    -- The write does not join anything, and what counts is no more credible, so it takes the place.
    have own := Write.verdict_of_whole whole (cache.current? write.name write.type now) now
      cache.settings
    have unblocked : ¬ write.credibility < entry.credibility := Nat.not_lt.mpr above
    simp only [existing, Write.ownVerdict, Option.any_some, decide_eq_true_eq, unblocked, if_false,
      lasting] at own
    obtain ⟨expireAt, ended, sum⟩ | ⟨refused, -⟩ :=
      expiry_spec now write.ttl (write.most cache.settings)
    · rw [ended] at own
      have placed : ((cache.sweep write.name write.type now).place write.name
          ⟨write.finding, write.credibility, expireAt⟩).find? name type =
          some ⟨write.finding, write.credibility, expireAt⟩ := by
        rw [find?_place, write.type_finding, if_pos ⟨isFor.1.symm, isFor.2.symm⟩]
      have life : 0 < (write.life cache.settings).nanos :=
        Write.life_pos lasting (by rw [Write.most_of_present present]; exact lives)
      have alive : ¬ expireAt ≤ now := by
        refine Nat.not_le.mpr ?_
        unfold Write.life at life
        omega
      have found := find?_insert_of_find? shape accepted
        (by rw [existing]; exact congrArg Prod.snd own) placed kept
      refine ⟨_, current?_eq_some.mpr ⟨found, alive⟩, ?_, above⟩
      simp only [Entry.isNegative, present]
    · -- The clock cannot tell the end of its life: what counted stays.
      rw [refused] at own
      rw [write.perform_apply, accepted]
      simp only [existing, own, Change.apply]
      exact ⟨entry, (current?_sweep cache _ _ now name type).trans counts, positive, Nat.le_refl _⟩

theorem Supplies.mono {cache : Cache} {now : Duration} {name : Name} {type : RecordType}
    {level lower : Credibility} (supplies : cache.Supplies now name type level)
    (below : lower ≤ level) : cache.Supplies now name type lower := by
  obtain ⟨entry, counts, positive, credible⟩ := supplies
  exact ⟨entry, counts, positive, Nat.le_trans below credible⟩

/-- The `write` leaves data for a `name` and `type` with some `Credibility` in its place: if it is
for this name and type at all, it is less credible or brings other data. -/
def Write.Respects (write : Write) (name : Name) (type : RecordType) (level : Credibility) : Prop :=
  write.IsFor name type → write.credibility < level ∨ write.Brings

/-- Data still counts after a `write` that respects it. -/
theorem Write.Respects.perform {write : Write} {name : Name} {type : RecordType}
    {level : Credibility} (respects : write.Respects name type level) (whole : write.IsWhole)
    {now : Duration} {cache : Cache} (shape : cache.WellFormed)
    (lives : 0 < cache.settings.maxLife.nanos) (supplies : cache.Supplies now name type level)
    (kept : ¬ Evicts (write.perform now) cache name) :
    (write.perform now cache).2.Supplies now name type level := by
  obtain ⟨entry, counts, positive, credible⟩ := supplies
  by_cases below : write.IsFor name type → write.credibility < entry.credibility
  · have stays := Write.find?_perform_of_current shape counts below kept
    exact ⟨entry, current?_eq_some.mpr ⟨stays, (current?_eq_some.mp counts).2⟩, positive, credible⟩
  · obtain ⟨isFor, above⟩ := Classical.not_imp.mp below
    obtain blocked | brings := respects isFor
    · exact absurd (Nat.lt_of_lt_of_le blocked credible) above
    · exact (brings.perform whole shape lives counts positive isFor (Nat.not_lt.mp above)
        kept).mono credible

/-- Data still counts after several `writes` that respect it, unless its `name` is evicted. -/
theorem supplies_performAll {now : Duration} {writes : List Write} {name : Name}
    {type : RecordType} {level : Credibility} (whole : ∀ write ∈ writes, write.IsWhole)
    (respect : ∀ write ∈ writes, write.Respects name type level) {cache : Cache}
    (shape : cache.WellFormed) (lives : 0 < cache.settings.maxLife.nanos)
    (supplies : cache.Supplies now name type level)
    (kept : ¬ WritesEvict now name writes cache) :
    (performAll now writes cache).2.Supplies now name type level := by
  induction writes generalizing cache with
  | nil => exact supplies
  | cons write writes ih =>
    rw [List.forall_mem_cons] at whole respect
    rw [WritesEvict, not_or] at kept
    have first := respect.1.perform whole.1 shape lives supplies kept.1
    have shape := write.wellFormed_perform shape now
    have settings := write.settings_perform now cache
    rw [performAll, Op.bind_apply]
    rcases performed : write.perform now cache with ⟨misuse | _, middle⟩
    · rwa [performed] at first
    · rw [performed] at first shape kept settings
      exact ih whole.2 respect.2 shape (by rw [settings]; exact lives) first kept.2

/-! ## Lives -/

/-- No data is in the `cache` whose life has not ended. -/
def Barren (cache : Cache) (now : Duration) : Prop :=
  ∀ name type entry, cache.find? name type = some entry → entry.isNegative = false →
    entry.IsExpired now

/-- Data that is added has a life (`maxLife`), or no data counts. -/
def Scene.Sustains (scene : Scene) : Prop :=
  0 < scene.cache.settings.maxLife.nanos ∨ scene.cache.Barren scene.now

/-- Where data has no life, no data counts after a `write`. -/
theorem Barren.perform {cache : Cache} {now : Duration} (barren : cache.Barren now)
    (lifeless : cache.settings.maxLife.nanos = 0) (write : Write) :
    (write.perform now cache).2.Barren now := by
  intro name type entry found positive
  obtain before | ⟨-, ⟨expireAt, ended, rfl⟩ |
    ⟨record, old, set, expireAt, rfl, kept, said, rfl, sooner, -⟩⟩ := Write.find?_perform found
  · exact barren name type entry before positive
  · cases said : write.finding with
    | absent type => simp [Entry.isNegative, said] at positive
    | present set =>
      rw [Write.most_of_present said] at ended
      obtain ⟨other, ended', sum⟩ | ⟨refused, -⟩ :=
        expiry_spec now write.ttl cache.settings.maxLife
      · obtain rfl := Except.ok.inj (ended.symm.trans ended')
        have none : (lifetime write.ttl cache.settings.maxLife).nanos = 0 := by
          rw [lifetime, nanos_min, lifeless, Nat.min_zero]
        show expireAt.nanos ≤ now.nanos
        omega
      · rw [ended] at refused
        cases refused
  · -- What is joined lives no longer than it did before.
    have old := barren name type old kept (by simp only [Entry.isNegative, said])
    exact Nat.le_trans sooner old

/-- Data that has a life keeps one, whatever is done to a `cache`. -/
theorem Action.maxLife_operate (action : Action) {now : Duration} {cache : Cache}
    (shape : cache.WellFormed) (lives : 0 < cache.settings.maxLife.nanos) :
    0 < (action.operate now cache).2.settings.maxLife.nanos := by
  -- Only one action sets the longest life, and its setter gives at least a second.
  have alike {after : Cache} (settings : after.settings = cache.settings) :
      0 < after.settings.maxLife.nanos := by rwa [settings]
  have reads (name : Name) (type : RecordType) (least : Credibility) :
      (Cache.lookup name type least now cache).2.settings = cache.settings := by
    obtain same | sheds := sheds_lookup name type least now cache
    · rw [same]
    · rw [(sheds shape.evict).settings]
      rfl
  cases action with
  | addRecord record credibility =>
    exact alike ((Write.ofRecord record credibility).settings_perform now cache)
  | addSet set credibility =>
    exact alike ((Write.ofSet set credibility).settings_perform now cache)
  | addNegative name type soa credibility =>
    simp only [operate, Cache.addNegative, Op.bind_apply, Op.ofExcept_apply]
    cases absenceTtl soa with
    | ok ttl => exact alike ((Write.ofAbsence name type ttl credibility).settings_perform now cache)
    | error misuse => exact lives
  | addMessage message =>
    simp only [operate, addMessage_eq, bind_assoc, pure_bind, bind_pure_unit]
    exact alike (performAll_keeps (fun after => after.settings = cache.settings)
      (fun write _ after same => (write.settings_perform now after).trans same) rfl)
  | lookup name type least =>
    simp only [operate, bind_pure_comp, Op.map_apply]
    exact alike (reads name type least)
  | findRecords name type =>
    simp only [operate, Cache.findRecords, bind_pure_comp, Op.map_apply]
    exact alike (reads name type .normal)
  | flushName name => exact lives
  | flushSet name type => exact alike (settings_remove cache name type)
  | clear => exact lives
  | setMaxNames value => exact lives
  | setMaxLife value =>
    show 0 < (if Duration.ofSeconds 1 ≤ min (.ofSeconds 6048000) value then
      min (Duration.ofSeconds 6048000) value else Duration.ofSeconds 1).nanos
    split
    · rename_i least
      exact Nat.lt_of_lt_of_le (by decide) least
    · decide
  | setMaxNegativeLife value => exact lives
  | advance span => exact lives

theorem Scene.Sustains.after {scene : Scene} (sustains : scene.Sustains)
    (shape : scene.cache.WellFormed) (action : Action) : (scene.after action).Sustains := by
  obtain lifeless | lives := Nat.eq_zero_or_pos scene.cache.settings.maxLife.nanos
  · have barren : scene.cache.Barren scene.now := by
      obtain lives | barren := sustains
      · exact absurd lifeless (Nat.ne_of_gt lives)
      · exact barren
    have later : (action.operate scene.now scene.cache).2.Barren scene.now := by
      obtain wrote | known := (action.effect_operate scene.now scene.cache).writes_or_known shape
      · rw [wrote]
        refine (performAll_keeps (fun cache => cache.Barren scene.now ∧
          cache.settings.maxLife.nanos = 0) (fun write _ cache kept => ?_) ⟨barren, lifeless⟩).1
        exact ⟨kept.1.perform kept.2 write, by rw [write.settings_perform, kept.2]⟩
      · exact fun name type entry found => barren name type entry (known name type entry found)
    exact .inr fun name type entry found positive =>
      Nat.le_trans (later name type entry found positive) (scene.now_le_now_after action)
  · exact .inl (action.maxLife_operate shape lives)

/-- In every `run`, data that is added has a life, or no data counts. -/
theorem Scene.sustains_run (settings : CacheSettings) (actions : List Action) :
    ((start settings).run actions).Sustains := by
  have step {scene : Scene} (shape : scene.cache.WellFormed) (sustains : scene.Sustains) :
      (scene.run actions).Sustains := by
    induction actions generalizing scene with
    | nil => exact sustains
    | cons action actions ih =>
      exact ih ((action.effect_operate scene.now scene.cache).wellFormed shape)
        (sustains.after shape action)
  exact step (wellFormed_empty settings) (.inr fun name type entry found => by cases found)

/-! ## Responses that say nothing -/

/-- The response says nothing about a `question`: it has no answer, and names no servers of a zone
around the name to which its aliases lead. -/
structure Uninformative (question : Question) (message : Message) : Prop where
  unanswered : (answerWalk question message).completed = false
  unreferred : lastCovering (message.sets .authority) (finalName question message) .ns = none

/-- What a response without an error and without SOA records takes away: if it says nothing about
its `question`, data of the `type` in question at the `name` to which its aliases lead, unless this
data is more credible than its authority section. -/
inductive Discards (message : Message) (name : Name) (type : RecordType)
    (credibility : Credibility) : Prop
  | silence {question : Question} (asked : message.questions.head? = some question)
    (silent : Uninformative question message) (ends : (name == finalName question message) = true)
    (kind : type = question.type)
    (weak : credibility ≤ .ofAuthority message.header.isAuthoritative)

variable {message : Message}

theorem lastCovering_eq_none {sets : List RecordSet} {type : RecordType}
    (none : ∀ set ∈ sets, set.type ≠ type) (name : Name) : lastCovering sets name type = .none := by
  cases found : lastCovering sets name type with
  | none => rfl
  | some set =>
    obtain ⟨member, -, kind⟩ := lastCovering_eq_some found
    exact absurd kind (none set member)

/-- A response without an error, SOA `records` and records that are not to be kept respects all data
but what it discards. -/
theorem respects_of_mem_writesOf (fine : message.rcode = .noError)
    (bare : ∀ record ∈ message.authority, record.type ≠ .soa)
    (lasting : ∀ place, ∀ record ∈ message.records place, record.ttl ≠ 0) {name : Name}
    {type : RecordType} {level : Credibility} (safe : ¬ Discards message name type level)
    {write : Write} (member : write ∈ writesOf message) : write.Respects name type level := by
  have brings (place : Section) {set : RecordSet} (among : set ∈ message.sets place)
      (credibility : Credibility) : (Write.ofSet set credibility).Brings :=
    ⟨RecordSet.forall_ttl_group (P := (· ≠ 0)) (lasting place) set among, set, rfl⟩
  intro isFor
  obtain ⟨question, first, written⟩ := mem_writesOf member
  obtain reply | authority | ⟨set, among, -, -, rfl⟩ := mem_writesFor written
  · obtain ⟨set, among, rfl, -⟩ := mem_answerWrites reply
    exact .inr (brings .answer among _)
  · obtain ⟨set, among, -, -, rfl⟩ | ⟨unanswered, final, rfl⟩ := mem_authorityWrites authority
    · exact .inr (brings .authority among _)
    · -- The absence of data is only written where the response says nothing about its question.
      refine .inl (Nat.lt_of_not_le fun weak => safe ?_)
      have unproven : lastCovering (message.sets .authority) (answerWalk question message).name
          .soa = none :=
        lastCovering_eq_none (RecordSet.forall_type_group (P := (· ≠ .soa)) bare) _
      have known : message.rcode ≠ .nxDomain := by rw [fine]; decide
      obtain ⟨ends, kind⟩ := isFor
      obtain rfl : question.type = type := (if_neg known).symm.trans kind
      have unreferred : lastCovering (message.sets .authority) (answerWalk question message).name
          .ns = none := by simpa [known, unproven] using final
      rw [name_answerWalk] at unreferred
      refine .silence first ⟨unanswered, unreferred⟩ (Name.beq_iff.mpr ?_) rfl weak
      rw [← ends, Write.name, name_answerWalk]
  · exact .inr (brings .additional among _)

/-- On a way without an answer no `hosts` are mentioned. -/
theorem hosts_walked {question : Question} {walk : Walk} {sets : List RecordSet}
    (before : walk.completed = false → walk.hosts = [])
    (unanswered : (walked question walk sets).completed = false) :
    (walked question walk sets).hosts = [] := by
  induction sets generalizing walk with
  | nil => exact before unanswered
  | cons set sets ih =>
    unfold walked at unanswered ⊢
    -- Only an answer mentions hosts, and then the walk is completed.
    cases meaning : walk.meaning question set with
    | nothing =>
      rw [meaning] at unanswered
      exact ih before unanswered
    | answer =>
      rw [meaning] at unanswered
      exact ih (fun completed => by cases completed) unanswered
    | cname =>
      rw [meaning] at unanswered
      exact ih before unanswered
    | dname =>
      rw [meaning] at unanswered
      cases follows : walk.followDname set with
      | none =>
        rw [follows] at unanswered
        exact before unanswered
      | some next =>
        rw [follows] at unanswered
        obtain ⟨name, rfl⟩ := Walk.followDname_eq_some follows
        exact ih before unanswered

/-- What a response writes that says nothing about its `question`. -/
theorem Uninformative.writesOf_eq {question : Question} (silent : Uninformative question message)
    (first : message.questions.head? = some question) (fine : message.rcode = .noError)
    (bare : ∀ record ∈ message.authority, record.type ≠ .soa) :
    writesOf message = replyWrites question message ++
      [.ofAbsence (finalName question message) question.type 0
        (.ofAuthority message.header.isAuthoritative)] := by
  have unproven : lastCovering (message.sets .authority) (answerWalk question message).name .soa =
      none := lastCovering_eq_none (RecordSet.forall_type_group (P := (· ≠ .soa)) bare) _
  have unreferred := silent.unreferred
  rw [← name_answerWalk] at unreferred
  have writes : authorityWrites question message (answerWalk question message) =
      [.ofAbsence (finalName question message) question.type 0
        (.ofAuthority message.header.isAuthoritative)] := by
    have known : message.rcode ≠ .nxDomain := by rw [fine]; decide
    rw [← name_answerWalk]
    simp [authorityWrites, silent.unanswered, unreferred, unproven, known]
  have hosts : (informed message (answerWalk question message)).hosts = [] := by
    have unmentioned : (answerWalk question message).hosts = [] :=
      hosts_walked (fun _ => rfl) silent.unanswered
    simp [informed, silent.unanswered, unreferred, unmentioned]
  have nothing : additionalWrites [] (.ofAdditional message.header.isAuthoritative)
      (message.sets .additional) = [] := by
    simp [additionalWrites]
  have responds : writesOf message = writesFor question message := by
    unfold writesOf
    cases questions : message.questions with
    | nil => simp [questions] at first
    | cons own others =>
      rw [questions] at first
      obtain rfl := Option.some.inj first
      exact if_pos (.inl fine)
  rw [responds, writesFor, hosts, writes, nothing, List.append_nil, replyWrites]

/-- A `write` with the time to live zero takes away what is not more credible. -/
theorem Write.current?_perform_of_fleeting {write : Write} (whole : write.IsWhole)
    (accepted : write.refusal? = none) (fleeting : write.ttl = 0) {now : Duration} {cache : Cache}
    {name : Name} {type : RecordType} (isFor : write.IsFor name type)
    (weak : ∀ entry, cache.current? name type now = some entry →
      entry.credibility ≤ write.credibility) :
    (write.perform now cache).2.current? name type now = none := by
  have existing : cache.current? write.name write.type now = cache.current? name type now := by
    rw [current?_congr cache isFor.1, isFor.2]
  rw [write.perform_apply, accepted]
  simp only [Write.verdict_of_whole whole, Write.ownVerdict, existing, fleeting, if_true]
  cases counts : cache.current? name type now with
  | none => simpa [Change.apply, counts] using current?_sweep cache write.name write.type now name type
  | some entry =>
    have unblocked : ¬ write.credibility < entry.credibility := Nat.not_lt.mpr (weak entry counts)
    simp [Change.apply, unblocked, current?, find?_remove, isFor.1, isFor.2]

/-- An answer section is not more credible (`ofAnswer`) than the authority section beside it
(`ofAuthority`). -/
theorem ofAnswer_le_ofAuthority (authoritative : Bool) :
    Credibility.ofAnswer authoritative ≤ .ofAuthority authoritative := by
  cases authoritative <;> decide

/-- No `write` from an answer section is more credible than the authority section beside it. -/
theorem credibility_le_of_replyWrites {question : Question} {now : Duration} {cache : Cache}
    {name : Name} {type : RecordType}
    (weak : ∀ entry, cache.current? name type now = some entry →
      entry.credibility ≤ .ofAuthority message.header.isAuthoritative) {entry : Entry}
    (counts : (performAll now (replyWrites question message) cache).2.current? name type now =
      some entry) : entry.credibility ≤ .ofAuthority message.header.isAuthoritative := by
  have whole : ∀ write ∈ replyWrites question message, write.IsWhole := by
    intro write member
    obtain ⟨set, -, rfl, -⟩ := mem_answerWrites member
    trivial
  obtain ⟨found, alive⟩ := current?_eq_some.mp counts
  obtain before | ⟨write, member, -, -, same⟩ := find?_performAll whole found
  · exact weak entry (current?_eq_some.mpr ⟨before, alive⟩)
  · obtain ⟨set, -, rfl, -⟩ := mem_answerWrites member
    rw [same]
    exact ofAnswer_le_ofAuthority _

/-- What a response discards is gone once it has been added. -/
theorem Discards.current?_performAll {name : Name} {type : RecordType} {entry : Entry}
    (discards : Discards message name type entry.credibility) (fine : message.rcode = .noError)
    (bare : ∀ record ∈ message.authority, record.type ≠ .soa) (absolute : name.absolute = true)
    {now : Duration} {cache : Cache} (counts : cache.current? name type now = some entry)
    (done : (performAll now (writesOf message) cache).1 = .ok ()) :
    (performAll now (writesOf message) cache).2.current? name type now = none := by
  obtain @⟨question, first, silent, ends, rfl, weak⟩ := discards
  have same : name.fold = (finalName question message).fold := Name.beq_iff.mp ends
  -- What the answer section writes is no more credible than the absence that is written last.
  have weaker (other : Entry) (after : (performAll now (replyWrites question message)
      cache).2.current? name question.type now = some other) :
      other.credibility ≤ .ofAuthority message.header.isAuthoritative := by
    refine credibility_le_of_replyWrites (fun known existing => ?_) after
    obtain rfl := Option.some.inj (existing.symm.trans counts)
    exact weak
  rw [silent.writesOf_eq first fine bare, performAll_append, performAll_singleton,
    Op.bind_apply] at done ⊢
  rcases performed : performAll now (replyWrites question message) cache with ⟨misuse | _, middle⟩
  · rw [performed] at done
    cases done
  · rw [performed] at weaker
    have absolute : (finalName question message).absolute = true := by
      rw [← Name.absolute_fold, ← same, Name.absolute_fold, absolute]
    have whole : (Write.ofAbsence (finalName question message) question.type 0
      (.ofAuthority message.header.isAuthoritative)).IsWhole := trivial
    exact Write.current?_perform_of_fleeting whole (if_pos absolute) rfl ⟨same.symm, rfl⟩ weaker

/-- A response that proves nothing to be absent takes nothing away, unless it says nothing about its
question. In every run of a cache that starts empty, with any `settings`, let a response be added
that tells of no error, whose authority section has no SOA record, and all of whose records have
some time to live. Data that counts for a `name` and `type` is still there and counts `after` it, or
other data that is no less credible, unless the writes evict the name or the response `Discards` the
data. And whatever it discards is gone, provided that the response could be added as a whole. -/
theorem Scene.addMessage_retains (settings : CacheSettings) (actions : List Action)
    (fine : message.rcode = .noError) (bare : ∀ record ∈ message.authority, record.type ≠ .soa)
    (lasting : ∀ place, ∀ record ∈ message.records place, record.ttl ≠ 0) {scene : Scene}
    (runs : (start settings).run actions = scene) {name : Name} {type : RecordType} {entry : Entry}
    (counts : scene.cache.current? name type scene.now = some entry)
    (positive : entry.isNegative = false) {after : Cache}
    (added : (addMessage message scene.now scene.cache).2 = after) :
    (WritesEvict scene.now name (writesOf message) scene.cache ∨
      Discards message name type entry.credibility ∨
      ∃ other, after.current? name type scene.now = some other ∧ other.isNegative = false ∧
        entry.credibility ≤ other.credibility) ∧
    (Discards message name type entry.credibility → name.absolute = true →
      (∃ found, (addMessage message scene.now scene.cache).1 = .ok found) →
      after.current? name type scene.now = none) := by
  subst runs
  have shape : ((start settings).run actions).cache.WellFormed :=
    wellFormed_run (wellFormed_empty settings) actions
  rw [addMessage_apply] at added ⊢
  subst added
  refine ⟨?_, fun discards absolute accepted => ?_⟩
  · refine Classical.or_iff_not_imp_left.mpr fun kept => ?_
    refine Classical.or_iff_not_imp_left.mpr fun safe => ?_
    -- Where data has no life no data would count.
    have lives : 0 < ((start settings).run actions).cache.settings.maxLife.nanos := by
      obtain lives | barren := sustains_run settings actions
      · exact lives
      · obtain ⟨found, alive⟩ := current?_eq_some.mp counts
        exact absurd (barren name type entry found positive) alive
    exact supplies_performAll (fun write => isWhole_of_mem_writesOf)
      (fun write member => respects_of_mem_writesOf fine bare lasting safe member) shape lives
      ⟨entry, counts, positive, Nat.le_refl _⟩ kept
  · refine discards.current?_performAll fine bare absolute counts ?_
    obtain ⟨found, accepted⟩ := accepted
    revert accepted
    cases (performAll _ (writesOf message) _).1 with
    | ok => exact fun _ => rfl
    | error misuse => exact fun accepted => nomatch accepted

/-- A response that gives an alias, and `more` records. -/
def renamed (more : List Record) : Message where
  header := Header.empty.setResponse true
  questions := [.internet (.top 119) .a]
  answer := ⟨.top 119, .internet, 60, .cname (.top 118)⟩ :: more
  authority := []
  additional := []

/-- The address of the name that the alias of `renamed` leads to. -/
def target : Record := ⟨.top 118, .internet, 300, .a (.ofOctets 192 0 2 10)⟩

theorem Scene.addMessage_retains_renamed :
    let scene := (start .default).run [.addRecord target .nonAuthAnswer]
    let message := renamed [⟨.top 118, .internet, 60, .a (.ofOctets 192 0 2 11)⟩]
    (scene.cache.current? (.top 118) .a scene.now).isSome ∧
      ∃ other, (addMessage message scene.now scene.cache).2.current? (.top 118) .a scene.now =
        some other ∧ other.isNegative = false := by
  intro scene message
  obtain ⟨entry, counts⟩ : ∃ entry, scene.cache.current? (.top 118) .a scene.now = some entry :=
    ⟨_, rfl⟩
  have positive : entry.isNegative = false := by
    cases counts
    rfl
  have fine : message.rcode = .noError := by decide
  have lasting (place : Section) (record : Record) (member : record ∈ message.records place) :
      record.ttl ≠ 0 := by
    cases place with
    | answer => revert record; decide
    | authority => cases member
    | additional => cases member
  obtain ⟨evicts | discards | ⟨other, found, supplies, -⟩, -⟩ :=
    addMessage_retains .default [.addRecord target .nonAuthAnswer] fine
      (fun record member => absurd member List.not_mem_nil) lasting rfl counts positive rfl
  · exact absurd evicts (not_writesEvict_of_room (by decide) _)
  · obtain @⟨question, first, silent, -, -, -⟩ := discards
    obtain rfl := Option.some.inj first
    exact absurd silent.unanswered (by decide)
  · exact ⟨by rw [counts]; rfl, other, found, supplies⟩

/-- An alias that is given alone takes away the address of its `target`. -/
theorem Scene.addMessage_discards_target :
    let scene := (start .default).run [.addRecord target .nonAuthAnswer]
    (renamed []).rcode = .noError ∧ (∀ record ∈ (renamed []).authority, record.type ≠ .soa) ∧
      (∀ place, ∀ record ∈ (renamed []).records place, record.ttl ≠ 0) ∧
      (∃ entry, scene.cache.current? (.top 118) .a scene.now = some entry ∧
        entry.isNegative = false) ∧
      ¬ WritesEvict scene.now (.top 118) (writesOf (renamed [])) scene.cache ∧
      (addMessage (renamed []) scene.now scene.cache).1 = .ok (.cname (.ofRecord
        ⟨.top 119, .internet, 60, .cname (.top 118)⟩)) ∧
      (addMessage (renamed []) scene.now scene.cache).2.current? (.top 118) .a scene.now = none := by
  refine ⟨by decide, fun record member => absurd member List.not_mem_nil,
    fun place record member => ?_, ⟨_, rfl, rfl⟩, not_writesEvict_of_room (by decide) _, rfl, rfl⟩
  cases place with
  | answer => revert record; decide
  | authority => cases member
  | additional => cases member

end Cache

end NameResolution
