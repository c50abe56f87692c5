import NameResolution.Proofs.Cache.Entitlement
import NameResolution.Proofs.Cache.Reading

/-!
# Records of other classes

A cache does not keep classes apart, so it must not take in records of another class than that of
the question. The answer section is sorted by class. The other sections are not: there, records of
another class are taken for what they would be in the class of the question.

* `Message.ofClass`: a response without its records of other classes.
* `Message.Isolated`: such records stand where they are not read.
* `Cache.addMessage_ofClass`: then it makes no difference to a cache that they are there.
* `Cache.OfClass`: all record sets in a cache are of one class. `Cache.Scene.ofClass_run`: they
  are in every run in which only such sets, records and responses are added.
-/

namespace NameResolution

variable {recordClass : RecordClass}

/-! ## Responses -/

namespace Message

/-- The `message` without its records of other classes than `recordClass`. -/
def ofClass (recordClass : RecordClass) (message : Message) : Message where
  header := message.header
  questions := message.questions
  answer := message.answer.filter (·.recordClass = recordClass)
  authority := message.authority.filter (·.recordClass = recordClass)
  additional := message.additional.filter (·.recordClass = recordClass)

/-- No record of another class than `recordClass` tells about zones or their servers in the
authority section, or gives an address in the additional section. -/
structure Isolated (recordClass : RecordClass) (message : Message) : Prop where
  authority : ∀ record ∈ message.authority,
    record.recordClass = recordClass ∨ record.type ≠ .soa ∧ record.type ≠ .ns
  additional : ∀ record ∈ message.additional,
    record.recordClass = recordClass ∨ ¬record.type.IsAddress

variable {message : Message}

/-- Without the records of other classes, their `sets` are missing, and nothing else. -/
theorem sets_ofClass (recordClass : RecordClass) (message : Message) (place : Section) :
    (message.ofClass recordClass).sets place =
      (message.sets place).filter (·.recordClass = recordClass) := by
  cases place <;> exact RecordSet.group_filter (fun key => key.2.2 = recordClass) _

theorem Isolated.authority_sets (isolated : message.Isolated recordClass) :
    ∀ set ∈ message.sets .authority,
      set.recordClass = recordClass ∨ set.type ≠ .soa ∧ set.type ≠ .ns :=
  RecordSet.forall_key_group
    (P := fun key => key.2.2 = recordClass ∨ key.2.1 ≠ .soa ∧ key.2.1 ≠ .ns) isolated.authority

theorem Isolated.additional_sets (isolated : message.Isolated recordClass) :
    ∀ set ∈ message.sets .additional, set.recordClass = recordClass ∨ ¬set.type.IsAddress :=
  RecordSet.forall_key_group (P := fun key => key.2.2 = recordClass ∨ ¬key.2.1.IsAddress)
    isolated.additional

end Message

namespace Cache

variable {question : Question} {message : Message}

/-! ## Adding a response -/

/-- In an answer section, a `set` of another class means `nothing`. -/
theorem Walk.meaning_of_foreign (walk : Walk) {set : RecordSet}
    (foreign : set.recordClass ≠ question.recordClass) : walk.meaning question set = .nothing :=
  if_pos (.inl foreign)

theorem walked_ofClass (walk : Walk) (sets : List RecordSet) :
    walked question walk (sets.filter (·.recordClass = question.recordClass)) =
      walked question walk sets := by
  induction sets generalizing walk with
  | nil => rfl
  | cons set sets ih =>
    by_cases own : set.recordClass = question.recordClass
    · rw [List.filter_cons_of_pos (by simpa using own)]
      unfold walked
      cases walk.meaning question set with
      | dname => cases walk.followDname set <;> simp [ih]
      | _ => exact ih _
    · have skips : walked question walk (set :: sets) = walked question walk sets := by
        simp only [walked, Walk.meaning_of_foreign walk own]
      rw [List.filter_cons_of_neg (by simpa using own), skips]
      exact ih walk

theorem answerWrites_ofClass (credibility : Credibility) (walk : Walk) (sets : List RecordSet) :
    answerWrites question credibility walk
        (sets.filter (·.recordClass = question.recordClass)) =
      answerWrites question credibility walk sets := by
  induction sets generalizing walk with
  | nil => rfl
  | cons set sets ih =>
    by_cases own : set.recordClass = question.recordClass
    · rw [List.filter_cons_of_pos (by simpa using own)]
      unfold answerWrites
      cases walk.meaning question set with
      | dname => cases walk.followDname set <;> simp [ih]
      | nothing => exact ih _
      | _ => exact congrArg _ (ih _)
    · have skips : answerWrites question credibility walk (set :: sets) =
          answerWrites question credibility walk sets := by
        simp only [answerWrites, Walk.meaning_of_foreign walk own]
      rw [List.filter_cons_of_neg (by simpa using own), skips]
      exact ih walk

/-- Sets that `keep` leaves out are not missed by a search that would not take them. -/
theorem filter_kept {sets : List RecordSet} {keep : RecordSet → Bool} {wanted : RecordSet → Prop}
    [DecidablePred wanted] (others : ∀ set ∈ sets, keep set = true ∨ ¬wanted set) :
    (sets.filter keep).filter wanted = sets.filter wanted := by
  rw [List.filter_filter]
  refine List.filter_congr fun set member => ?_
  obtain kept | other := others set member
  · rw [kept, Bool.and_true]
  · rw [decide_eq_false other, Bool.false_and]

/-- Sets that are left out cover nothing if they are of another `type`. -/
theorem lastCovering_filter {sets : List RecordSet} {type : RecordType} {keep : RecordSet → Bool}
    (others : ∀ set ∈ sets, keep set = true ∨ set.type ≠ type) (name : Name) :
    lastCovering (sets.filter keep) name type = lastCovering sets name type := by
  refine congrArg List.getLast? (filter_kept fun set member => ?_)
  exact (others set member).imp_right fun other covers => other covers.2

theorem additionalWrites_filter {sets : List RecordSet} {keep : RecordSet → Bool}
    (others : ∀ set ∈ sets, keep set = true ∨ ¬set.type.IsAddress) (hosts : List Name)
    (credibility : Credibility) :
    additionalWrites hosts credibility (sets.filter keep) =
      additionalWrites hosts credibility sets := by
  refine congrArg (List.map _) (filter_kept fun set member => ?_)
  exact (others set member).imp_right fun other gives => other gives.1

theorem answerWalk_ofClass (question : Question) (message : Message) :
    answerWalk question (message.ofClass question.recordClass) = answerWalk question message := by
  unfold answerWalk
  rw [Message.sets_ofClass, walked_ofClass]

section

variable (isolated : message.Isolated question.recordClass)
include isolated

theorem lastCovering_ofClass (name : Name) {type : RecordType} (kind : type = .soa ∨ type = .ns) :
    lastCovering ((message.ofClass question.recordClass).sets .authority) name type =
      lastCovering (message.sets .authority) name type := by
  rw [Message.sets_ofClass]
  refine lastCovering_filter (fun set member => ?_) name
  obtain own | ⟨soa, servers⟩ := isolated.authority_sets set member
  · exact .inl (decide_eq_true own)
  · obtain rfl | rfl := kind
    · exact .inr soa
    · exact .inr servers

theorem authorityWrites_ofClass (walk : Walk) :
    authorityWrites question (message.ofClass question.recordClass) walk =
      authorityWrites question message walk := by
  unfold authorityWrites
  dsimp only
  rw [lastCovering_ofClass isolated _ (.inl rfl), lastCovering_ofClass isolated _ (.inr rfl)]
  rfl

theorem informed_ofClass (walk : Walk) :
    informed (message.ofClass question.recordClass) walk = informed message walk := by
  unfold informed
  dsimp only
  rw [lastCovering_ofClass isolated _ (.inl rfl), lastCovering_ofClass isolated _ (.inr rfl)]
  rfl

theorem writesFor_ofClass :
    writesFor question (message.ofClass question.recordClass) = writesFor question message := by
  unfold writesFor
  dsimp only
  rw [answerWalk_ofClass, authorityWrites_ofClass isolated, informed_ofClass isolated,
    Message.sets_ofClass, Message.sets_ofClass, answerWrites_ofClass, additionalWrites_filter]
  · rfl
  · exact fun set member => (isolated.additional_sets set member).imp_left decide_eq_true

end

/-- If the records of other classes stand where they are not read (`Isolated`), then `addMessage`
makes no difference between a message with and without them, to any cache at any time. -/
theorem addMessage_ofClass (isolated : message.Isolated recordClass)
    (asked : ∀ question ∈ message.questions.head?, question.recordClass = recordClass)
    (now : Duration) : addMessage (message.ofClass recordClass) now = addMessage message now := by
  suffices same : writesOf (message.ofClass recordClass) = writesOf message ∧
      meaningOf (message.ofClass recordClass) = meaningOf message by
    rw [addMessage_eq, addMessage_eq, same.1, same.2]
  have questions : (message.ofClass recordClass).questions = message.questions := rfl
  unfold writesOf meaningOf
  rw [questions]
  cases first : message.questions with
  | nil => exact ⟨rfl, rfl⟩
  | cons question others =>
    obtain rfl := asked question (by rw [first]; rfl)
    simp only [writesFor_ofClass isolated, answerWalk_ofClass, informed_ofClass isolated]
    exact ⟨rfl, rfl⟩

/-! ## Caches of one class -/

/-- All record sets in the `cache` are of the class. -/
def OfClass (recordClass : RecordClass) (cache : Cache) : Prop :=
  ∀ name type entry set, cache.find? name type = some entry → entry.finding = .present set →
    set.recordClass = recordClass

/-- All that the `write` brings is of the class. -/
def Write.IsOfClass (recordClass : RecordClass) (write : Write) : Prop :=
  ∀ set, write.finding = .present set → set.recordClass = recordClass

/-- What is added is of the class: a response to a `question` of the class, the records of which
that are of other classes stand where they are not read. -/
def Action.IsOfClass (recordClass : RecordClass) : Action → Prop
  | .addRecord record _ => record.recordClass = recordClass
  | .addSet set _ => set.recordClass = recordClass
  | .addMessage message => message.Isolated recordClass ∧
    ∀ question ∈ message.questions.head?, question.recordClass = recordClass
  | _ => True

/-- The `action` without the records of other classes in a response. -/
def Action.ofClass (recordClass : RecordClass) : Action → Action
  | .addMessage message => .addMessage (message.ofClass recordClass)
  | action => action

/-- A `run` is the same without the records of other classes in the responses. -/
theorem Scene.run_ofClass {scene : Scene} {actions : List Action}
    (each : ∀ action ∈ actions, action.IsOfClass recordClass) :
    scene.run actions = scene.run (actions.map (·.ofClass recordClass)) := by
  have step (scene : Scene) {action : Action} (own : action.IsOfClass recordClass) :
      scene.after (action.ofClass recordClass) = scene.after action := by
    cases action with
    | addMessage message =>
      unfold after
      show Scene.mk
        (Action.operate scene.now (.addMessage (message.ofClass recordClass)) scene.cache).2 _ = _
      unfold Action.operate
      simp only [addMessage_ofClass own.1 own.2]
      rfl
    | _ => rfl
  induction actions generalizing scene with
  | nil => rfl
  | cons action actions ih =>
    obtain ⟨first, rest⟩ := List.forall_mem_cons.mp each
    rw [List.map_cons, run_cons, run_cons, step scene first, ih rest]

variable {cache : Cache} {now : Duration}

theorem OfClass.perform {write : Write} (own : cache.OfClass recordClass)
    (writes : write.IsOfClass recordClass) : (write.perform now cache).2.OfClass recordClass := by
  intro name type entry set found said
  obtain before | ⟨-, ⟨expireAt, -, rfl⟩ | ⟨record, old, stored, expireAt, rfl, kept, present, rfl,
    -⟩⟩ := Write.find?_perform found
  · exact own name type entry set before said
  · exact writes set said
  · obtain rfl := Finding.present.inj said
    have same : (stored.merge (.ofRecord record)).recordClass = stored.recordClass :=
      congrArg (·.2.2) (RecordSet.key_merge stored _)
    exact same.trans (own name type old stored kept present)

/-- What a response to a `question` of the class writes is of the class. -/
theorem isOfClass_of_mem_writesOf (isolated : message.Isolated recordClass)
    (asked : ∀ question ∈ message.questions.head?, question.recordClass = recordClass)
    {write : Write} (member : write ∈ writesOf message) : write.IsOfClass recordClass := by
  obtain ⟨question, first, member⟩ := mem_writesOf member
  intro set present
  obtain reply | authority | ⟨other, among, address, -, rfl⟩ := mem_writesFor member
  · obtain ⟨other, -, rfl, name, -, meaning, useful, means⟩ := mem_answerWrites reply
    obtain rfl := Finding.present.inj present
    cases means with
    | nothing useless => exact absurd rfl useful
    | _ own => exact own.trans (asked question first)
  · obtain ⟨other, among, -, kind, rfl⟩ | ⟨-, -, rfl⟩ := mem_authorityWrites authority
    · obtain rfl := Finding.present.inj present
      obtain own | ⟨-, other⟩ := isolated.authority_sets _ among
      · exact own
      · exact absurd kind other
    · cases present
  · obtain rfl := Finding.present.inj present
    exact (isolated.additional_sets _ among).resolve_right (not_not_intro address)

theorem Action.IsOfClass.writes {action : Action} (own : action.IsOfClass recordClass) :
    ∀ write ∈ action.writes, write.IsOfClass recordClass := by
  intro write member set present
  -- Three kinds of actions bring a set themselves or none; all others but a response write nothing.
  cases action with
  | addRecord record credibility =>
    obtain rfl := List.mem_singleton.mp member
    obtain rfl := Finding.present.inj present
    exact own
  | addSet stored credibility =>
    obtain rfl := List.mem_singleton.mp member
    obtain rfl := Finding.present.inj present
    exact own
  | addNegative name type soa credibility =>
    cases given : absenceTtl soa with
    | ok ttl =>
      simp only [Action.writes, given, List.mem_singleton] at member
      obtain rfl := member
      cases present
    | error misuse =>
      simp only [Action.writes, given] at member
      cases member
  | addMessage message => exact isOfClass_of_mem_writesOf own.1 own.2 member set present
  | _ => cases member

/-- In every `run` in which all that is added is of the class, all record sets are. -/
theorem Scene.ofClass_run {scene : Scene} (shape : scene.cache.WellFormed)
    (own : scene.cache.OfClass recordClass) {actions : List Action}
    (each : ∀ action ∈ actions, action.IsOfClass recordClass) :
    (scene.run actions).cache.OfClass recordClass := by
  induction actions generalizing scene with
  | nil => exact own
  | cons action actions ih =>
    have effect := action.effect_operate scene.now scene.cache
    obtain ⟨first, rest⟩ := List.forall_mem_cons.mp each
    refine ih (effect.wellFormed shape) ?_ rest
    obtain same | known := effect.writes_or_known shape
    · show OfClass recordClass (action.operate scene.now scene.cache).2
      rw [same]
      exact performAll_keeps (OfClass recordClass)
        (fun write member _ own => own.perform (first.writes write member)) own
    · exact fun name type entry set found => own name type entry set (known name type entry found)

/-- What a `lookup` finds in a `cache` of a class is of the class. -/
theorem OfClass.lookup (own : cache.OfClass recordClass) (shape : cache.WellFormed) {name : Name}
    {type : RecordType} {least : Credibility} {found : Lookup}
    (result : (Cache.lookup name type least now cache).1 = .ok found) :
    ∀ set ∈ found.sets, set.recordClass = recordClass := by
  intro set member
  obtain ⟨owner, kind, entry, counts, -, here⟩ := serves_lookup shape result set member
  obtain ⟨kept, -⟩ := current?_eq_some.mp counts
  cases said : entry.finding with
  | absent type => simp [Entry.setAt?, said] at here
  | present stored =>
    obtain rfl : { stored with ttl := entry.ttlAt _ } = set := by
      simpa [Entry.setAt?, said] using here
    exact own owner kind entry stored kept said

end Cache

end NameResolution
