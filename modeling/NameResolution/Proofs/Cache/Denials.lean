import Mathlib.Data.List.Induction
import NameResolution.Proofs.Cache.Entitlement
import NameResolution.Proofs.Cache.Views

/-!
# Where the absence of names is learned

That a name does not exist is kept as an entry of the type 0 at this name, which is no type of
records. Nothing keeps records and questions from having this type all the same.

* `Cache.Scene.Learned`: an entry of a name and type was written by an action of a run, no less
  credible and no shorter lived. `Cache.Scene.learned_run`: all entries were.
* `Cache.Action.Denies`: an action says that a name does not exist.
* `Cache.Action.Misuses`: an action adds something of the type 0, which says so by accident.
* `Cache.Scene.nxDomain_learned`: a lookup reports that a name does not exist only after one of
  these.
-/

namespace NameResolution

namespace Cache

/-! ## What was learned -/

/-- The `entry` goes back to something that an `Action` of the run has written for the `name` and
the `type`, with the credibility of the entry, and the life of which does not end before the
entry. -/
def Scene.Learned (scene : Scene) (actions : List Action) (name : Name) (type : RecordType)
    (entry : Entry) : Prop :=
  ∃ earlier action later, actions = earlier ++ action :: later ∧
    ∃ write ∈ action.writes, write.IsFor name type ∧ write.credibility = entry.credibility ∧
      entry.expireAt.nanos ≤ (scene.run earlier).now.nanos +
        (write.life (scene.run earlier).cache.settings).nanos

/-- All entries of a `cache` were learned from the run. -/
def Scene.Teaches (scene : Scene) (actions : List Action) (cache : Cache) : Prop :=
  ∀ name type entry, cache.find? name type = some entry → scene.Learned actions name type entry

variable {scene : Scene} {actions : List Action} {action : Action} {cache : Cache}

theorem Scene.Learned.append {name : Name} {type : RecordType} {entry : Entry}
    (learned : scene.Learned actions name type entry) (more : List Action) :
    scene.Learned (actions ++ more) name type entry := by
  obtain ⟨earlier, action, later, rfl, wrote⟩ := learned
  exact ⟨earlier, action, later ++ more, by simp, wrote⟩

/-- What an `action` writes is learned from it. A set that a record joins has been learned before,
and is kept no longer for it. -/
theorem Scene.Teaches.perform {write : Write} (teaches : scene.Teaches (actions ++ [action]) cache)
    (same : cache.settings = (scene.run actions).cache.settings) (member : write ∈ action.writes) :
    scene.Teaches (actions ++ [action]) (write.perform (scene.run actions).now cache).2 := by
  intro name type entry found
  obtain before | ⟨isFor, ⟨expireAt, finish, rfl⟩ |
    ⟨record, old, set, expireAt, rfl, kept, -, rfl, sooner, -⟩⟩ := Write.find?_perform found
  · exact teaches name type entry before
  · refine ⟨actions, action, [], rfl, write, member, isFor, rfl, ?_⟩
    obtain ⟨_, ended, sum⟩ | ⟨beyond, -⟩ :=
      expiry_spec (scene.run actions).now write.ttl (write.most cache.settings)
    · obtain rfl := Except.ok.inj (finish.symm.trans ended)
      rw [Write.life, ← same]
      exact Nat.le_of_eq sum
    · rw [beyond] at finish
      cases finish
  · obtain ⟨earlier, action, later, split, source, writes, isFor, credibility, outlives⟩ :=
      teaches name type old kept
    exact ⟨earlier, action, later, split, source, writes, isFor, credibility,
      Nat.le_trans sooner outlives⟩

/-- All entries of a `cache` that starts empty were learned from its `run`. -/
theorem Scene.learned_run (settings : CacheSettings) (actions : List Action) :
    (start settings).Teaches actions ((start settings).run actions).cache := by
  induction actions using List.reverseRecOn with
  | nil => exact fun _ _ _ found => nomatch found
  | append_singleton actions action ih =>
    have shape : ((start settings).run actions).cache.WellFormed :=
      wellFormed_run (wellFormed_empty settings) actions
    -- What was learned before the last action was also learned in the run with it.
    have grows : (start settings).Teaches (actions ++ [action])
        ((start settings).run actions).cache := fun name type entry found =>
      (ih name type entry found).append [action]
    have last : (start settings).run (actions ++ [action]) =
        ((start settings).run actions).after action := List.foldl_concat ..
    rw [last]
    have effect := action.effect_operate ((start settings).run actions).now
      ((start settings).run actions).cache
    -- The last action writes, or it puts nothing in.
    obtain same | known := effect.writes_or_known shape
    · unfold after
      rw [same]
      have kept := performAll_keeps (fun cache =>
          (start settings).Teaches (actions ++ [action]) cache ∧
            cache.settings = ((start settings).run actions).cache.settings)
        (fun write member cache ⟨teaches, same⟩ =>
          ⟨teaches.perform same member, (write.settings_perform _ cache).trans same⟩)
        ⟨grows, rfl⟩
      exact kept.1
    · exact fun name type entry found => grows name type entry (known name type entry found)

/-! ## What says that a name does not exist -/

/-- The `Action` says that the `name` does not exist. -/
inductive Action.Denies (name : Name) : Action → Prop
  | negative {owner : Name} {soa : Option Record} {credibility : Credibility}
    (same : owner.fold = name.fold) : Denies name (.addNegative owner .nothing soa credibility)
  | response {message : Message} {question : Question}
    (asked : message.questions.head? = some question) (missing : message.rcode = .nxDomain)
    (ends : (finalName question message).fold = name.fold) : Denies name (.addMessage message)

/-- The `Action` adds something of the `type` 0 at the `name`: a `record` or a record `set`, an
answer, or the absence of data of the type. -/
inductive Action.Misuses (name : Name) : Action → Prop
  | record {record : Record} {credibility : Credibility} (kind : record.type = .nothing)
    (same : record.owner.fold = name.fold) : Misuses name (.addRecord record credibility)
  | set {set : RecordSet} {credibility : Credibility} (kind : set.type = .nothing)
    (same : set.owner.fold = name.fold) : Misuses name (.addSet set credibility)
  | answer {message : Message} {question : Question} {set : RecordSet}
    (asked : message.questions.head? = some question)
    (type : question.type = .nothing ∨ question.type = .any) (among : set ∈ message.sets .answer)
    (kind : set.type = .nothing) (same : set.owner.fold = name.fold) :
    Misuses name (.addMessage message)
  | absence {message : Message} {question : Question}
    (asked : message.questions.head? = some question) (type : question.type = .nothing)
    (ends : (finalName question message).fold = name.fold) : Misuses name (.addMessage message)

/-- Only an `action` that denies the `name` or misuses the type 0 can bring an entry of this type
there. -/
theorem Action.denies_or_misuses {name : Name} {write : Write} (member : write ∈ action.writes)
    (isFor : write.IsFor name .nothing) : action.Denies name ∨ action.Misuses name := by
  obtain ⟨owner, kind⟩ := isFor
  cases action with
  | addRecord record credibility =>
    obtain rfl := List.mem_singleton.mp member
    exact .inr (.record kind owner)
  | addSet set credibility =>
    obtain rfl := List.mem_singleton.mp member
    exact .inr (.set kind owner)
  | addNegative name type soa credibility =>
    cases given : absenceTtl soa with
    | ok ttl =>
      simp only [Action.writes, given, List.mem_singleton] at member
      obtain rfl := member
      obtain rfl : type = .nothing := kind
      exact .inl (.negative owner)
    | error misuse =>
      simp only [Action.writes, given] at member
      cases member
  | addMessage message =>
    obtain ⟨question, asked, member⟩ := mem_writesOf member
    obtain reply | authority | ⟨set, -, address, -, rfl⟩ := mem_writesFor member
    · obtain ⟨set, among, rfl, stop, -, meaning, useful, means⟩ := mem_answerWrites reply
      have type : set.type = .nothing := kind
      cases means with
      | nothing useless => exact absurd rfl useful
      | answer own ordinary answers =>
        exact .inr (.answer asked (answers.1.imp_left (·.symm.trans type)) among type owner)
      | cname own other leads here => cases type.symm.trans leads
      | dname own other leads below => cases type.symm.trans leads
    · obtain ⟨set, -, -, servers, rfl⟩ | ⟨-, -, rfl⟩ := mem_authorityWrites authority
      · cases servers.symm.trans kind
      · have ends : (finalName question message).fold = name.fold :=
          (congrArg Name.fold (name_answerWalk question message)).symm.trans owner
        by_cases missing : message.rcode = .nxDomain
        · exact .inl (.response asked missing ends)
        · have type : (if message.rcode = .nxDomain then .nothing else question.type) =
            RecordType.nothing := kind
          rw [if_neg missing] at type
          exact .inr (.absence asked type ends)
    · have type : set.type = .nothing := kind
      rw [type] at address
      exact absurd address (by decide)
  | _ => cases member

/-! ## What lookups report -/

/-- Only a place that is read for this shows that a `name` does not exist, and only by an `entry`
that counts and can be trusted. -/
theorem Reading.view_eq_nxDomain {reading : Reading} {request : Request}
    (views : reading.view cache request = some .nxDomain) : reading.aspect = .missing ∧
      ∃ entry, cache.current? reading.name reading.type request.now = some entry ∧
        request.least ≤ entry.credibility := by
  unfold view at views
  obtain ⟨entry, found, shows⟩ := Option.bind_eq_some_iff.mp views
  obtain ⟨counts, credible⟩ := Option.filter_eq_some_iff.mp found
  refine ⟨?_, entry, counts, of_decide_eq_true credible⟩
  generalize entry.findingAt request.now = finding at shows
  cases aspect : reading.aspect <;> rw [aspect] at shows <;> cases finding <;> first
    | rfl
    | cases shows

theorem lookupExact_ne_nxDomain (request : Request) (name : Name) (cache : Cache) :
    (lookupExact request name cache).1 ≠ some .nxDomain := by
  by_cases single : request.type = .any
  · unfold lookupExact
    rw [if_pos single, stateM_bind_apply]
    generalize collect request name cache = collected
    obtain ⟨sets, after⟩ := collected
    cases sets <;> exact fun same => nomatch same
  · rw [lookupExact_fst request name cache single]
    intro shown
    obtain views | ⟨-, views⟩ := Option.or_eq_some_iff.mp shown
    · exact nomatch (Reading.view_eq_nxDomain views).1
    · exact nomatch (Reading.view_eq_nxDomain views).1

/-- Of the places that are read, only one is read for whether the `name` exists. -/
theorem place_of_missing {name : Name} {reading : Reading}
    (member : reading ∈ readingsPast name.suffixes) (missing : reading.aspect = .missing) :
    reading.name = name ∧ reading.type = .nothing := by
  obtain ⟨ancestors, suffixes⟩ := suffixes_eq_cons name
  rw [suffixes, readingsPast, List.mem_append] at member
  obtain beside | above := member
  · simp only [readingsBeside, List.mem_cons, List.not_mem_nil, or_false] at beside
    obtain rfl | rfl := beside
    · cases missing
    · exact ⟨rfl, rfl⟩
  · obtain ⟨ancestor, -, here⟩ := List.mem_flatMap.mp above
    simp only [readingsAbove, List.mem_cons, List.not_mem_nil, or_false] at here
    obtain rfl | rfl := here <;> cases missing

/-- A `lookup` reports that a `name` does not exist only if an `entry` of the `type` 0 counts there
and can be trusted. -/
theorem current?_of_nxDomain (shape : cache.WellFormed) {name : Name} {type : RecordType}
    {least : Credibility} {now : Duration}
    (result : (lookup name type least now cache).1 = .ok .nxDomain) :
    ∃ entry, cache.current? name .nothing now = some entry ∧ least ≤ entry.credibility := by
  cases absolute : name.absolute with
  | false => simp [lookup_relative absolute] at result
  | true =>
    rw [lookup_or absolute type least now shape] at result
    obtain shown | ⟨-, same⟩ := Option.getD_eq_iff.mp (Except.ok.inj result)
    · obtain exact | ⟨-, past⟩ := Option.or_eq_some_iff.mp shown
      · exact absurd exact (lookupExact_ne_nxDomain _ _ _)
      · obtain ⟨reading, member, views⟩ := List.exists_of_findSome?_eq_some past
        obtain ⟨missing, entry, counts, credible⟩ := Reading.view_eq_nxDomain views
        obtain ⟨rfl, kind⟩ := place_of_missing member missing
        rw [kind] at counts
        obtain ⟨kept, alive⟩ := current?_eq_some.mp counts
        exact ⟨entry, current?_eq_some.mpr ⟨find?_evict_eq_some cache kept, alive⟩, credible⟩
    · cases same

/-! ## Runs -/

/-- That a name does not exist is only reported when it was learned.

In every run of a cache that starts empty, if a `lookup` reports this, then an action `Denies` the
name, that is, has said it before, or `Misuses` the type 0, that is, has added something of this
type at the name. What was `Learned` from this action is credible enough, and its time is not over.
So as long as nothing of the type 0 is added, no record or record set and no response without an
error makes a lookup report it. -/
theorem Scene.nxDomain_learned (settings : CacheSettings) (actions : List Action) (name : Name)
    (type : RecordType) (least : Credibility)
    (result : (lookup name type least ((start settings).run actions).now
      ((start settings).run actions).cache).1 = .ok .nxDomain) :
    ∃ earlier action later, actions = earlier ++ action :: later ∧
      (action.Denies name ∨ action.Misuses name) ∧
      ∃ write ∈ action.writes, write.IsFor name .nothing ∧ least ≤ write.credibility ∧
        ((start settings).run actions).now.nanos < ((start settings).run earlier).now.nanos +
          (write.life ((start settings).run earlier).cache.settings).nanos := by
  have shape : ((start settings).run actions).cache.WellFormed :=
    wellFormed_run (wellFormed_empty settings) actions
  obtain ⟨entry, counts, credible⟩ := current?_of_nxDomain shape result
  obtain ⟨kept, alive⟩ := current?_eq_some.mp counts
  obtain ⟨earlier, action, later, split, write, member, isFor, credibility, outlives⟩ :=
    learned_run settings actions name .nothing entry kept
  exact ⟨earlier, action, later, split, Action.denies_or_misuses member isFor, write, member, isFor,
    credibility ▸ credible, Nat.lt_of_lt_of_le (Nat.lt_of_not_le alive) outlives⟩

/-- A response says by `nxDomain` that a name does not exist, and some time passes. -/
def denial : List Action :=
  let soa : Soa := ⟨.top 110, .top 104, 1, 7200, 3600, 1209600, 60⟩
  [.addMessage {
      header := (Header.empty.setResponse true).setRcode .nxDomain
      questions := [.internet (.top 119) .a]
      answer := []
      authority := [⟨.root, .internet, 3600, .soa soa⟩]
      additional := [] },
    .advance (.ofSeconds 59)]

theorem Scene.nxDomain_learned_denial :
    let scene := (start .default).run denial
    (lookup (.top 119) .a .normal scene.now scene.cache).1 = .ok .nxDomain ∧
      ∃ action ∈ denial, action.Denies (.top 119) ∨ action.Misuses (.top 119) := by
  have result : (lookup (.top 119) .a .normal ((start .default).run denial).now
      ((start .default).run denial).cache).1 = .ok .nxDomain := rfl
  obtain ⟨earlier, action, later, split, denies, -⟩ :=
    nxDomain_learned .default denial (.top 119) .a .normal result
  exact ⟨result, action, split ▸ by simp, denies⟩

/-- A record of the type 0 makes a `lookup` report `nxDomain` for its owner. -/
theorem Scene.nxDomain_learned_record :
    let actions : List Action :=
      [.addRecord ⟨.top 119, .internet, 300, .raw .nothing #[0]⟩ .authAnswer]
    let scene := (start .default).run actions
    (lookup (.top 119) .a .normal scene.now scene.cache).1 = .ok .nxDomain ∧
      ∀ action ∈ actions, ¬action.Denies (.top 119) :=
  ⟨rfl, List.forall_mem_singleton.mpr fun denies => nomatch denies⟩

end Cache

end NameResolution
