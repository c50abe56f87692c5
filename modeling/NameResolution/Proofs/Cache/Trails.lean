import NameResolution.Proofs.Cache.Messages
import NameResolution.Proofs.Names

/-!
# The way through an answer section

Adding a response follows the aliases of the answer section in the order in which they stand there.

* `Cache.trail`: the names passed on the way. `Cache.destination`: the last one of them.
* `Cache.Means`: what a record set means where the way has come to, told by names alone.
* `Cache.name_walked`: this is the way that adding a response takes.
* `Cache.mem_answerWrites`: what is written on the way are answers and aliases of names that are
  passed.
-/

namespace NameResolution

namespace Cache

/-! ## Names -/

/-- The `name` that an alias makes of a name. It makes nothing of a name that it is not about. -/
def aliasTo (set : RecordSet) (name : Name) : Except NameError (Option Name) :=
  match set.first with
  | .cname target => .ok (if set.owner == name then some target else none)
  | .dname target => name.rewrite? set.owner target
  | _ => .ok none

/-- The records are some that are asked for, and they are about the `name`. -/
def Answers (question : Question) (name : Name) (set : RecordSet) : Prop :=
  (set.type = question.type ∨ question.type = .any) ∧ (set.owner == name) = true

instance (question : Question) (name : Name) (set : RecordSet) :
    Decidable (Answers question name set) := inferInstanceAs (Decidable (_ ∧ _))

/-- The names that are passed from `name` on when the aliases in an answer section are followed as
they come. Records that are asked for are no aliases. A name that gets too long ends the way. -/
def trail (question : Question) : List RecordSet → Name → List Name
  | [], name => [name]
  | set :: sets, name =>
    if set.recordClass ≠ question.recordClass ∨ Answers question name set then
      trail question sets name
    else match aliasTo set name with
      | .ok (some next) => name :: trail question sets next
      | .ok none => trail question sets name
      | .error _ => [name]

/-- The `trail` starts at the `name` itself. -/
theorem exists_trail_eq_cons (question : Question) (sets : List RecordSet) (name : Name) :
    ∃ names, trail question sets name = name :: names := by
  induction sets with
  | nil => exact ⟨[], rfl⟩
  | cons set sets ih =>
    unfold trail
    split
    · exact ih
    · split
      · exact ⟨_, rfl⟩
      · exact ih
      · exact ⟨_, rfl⟩

theorem trail_ne_nil (question : Question) (sets : List RecordSet) (name : Name) :
    trail question sets name ≠ [] := by
  obtain ⟨names, starts⟩ := exists_trail_eq_cons question sets name
  simp [starts]

theorem mem_trail_self (question : Question) (sets : List RecordSet) (name : Name) :
    name ∈ trail question sets name := by
  obtain ⟨names, starts⟩ := exists_trail_eq_cons question sets name
  simp [starts]

/-- The `name` at the end of the way. -/
def destination (question : Question) (sets : List RecordSet) (name : Name) : Name :=
  (trail question sets name).getLast (trail_ne_nil question sets name)

/-! ## What record sets mean -/

/-- What a record `set` means where the way has come to a `name`. -/
inductive Means (question : Question) (name : Name) (set : RecordSet) : Walk.Meaning → Prop
  | nothing (useless : set.recordClass ≠ question.recordClass ∨ set.type.IsQueryOnly ∨
      ¬ Answers question name set ∧ ¬ (set.type = .cname ∧ (set.owner == name) = true) ∧
        ¬ (set.type = .dname ∧ name.IsBelow set.owner)) :
    Means question name set .nothing
  | answer (own : set.recordClass = question.recordClass) (ordinary : ¬ set.type.IsQueryOnly)
      (answers : Answers question name set) :
    Means question name set .answer
  | cname (own : set.recordClass = question.recordClass) (other : ¬ Answers question name set)
      (kind : set.type = .cname) (here : (set.owner == name) = true) :
    Means question name set .cname
  | dname (own : set.recordClass = question.recordClass) (other : ¬ Answers question name set)
      (kind : set.type = .dname) (below : name.IsBelow set.owner) :
    Means question name set .dname

theorem means_meaning (walk : Walk) (question : Question) (set : RecordSet) :
    Means question walk.name set (walk.meaning question set) := by
  unfold Walk.meaning
  split
  · rename_i useless
    exact .nothing (useless.imp_right .inl)
  rename_i useful
  rw [not_or, Decidable.not_not] at useful
  split
  · rename_i answers
    exact .answer useful.1 useful.2 answers
  rename_i other
  split
  · rename_i here
    exact .cname useful.1 other here.1 here.2
  rename_i elsewhere
  split
  · rename_i below
    exact .dname useful.1 other below.1 ⟨below.2.2, fun same => below.2.1 (Name.beq_comm.mp same)⟩
  · rename_i outside
    refine .nothing (.inr (.inr ⟨other, elsewhere, fun below => outside ⟨below.1, fun same => ?_,
      below.2.1⟩⟩))
    exact below.2.2 (Name.beq_comm.mp same)

/-- Data that is no alias of the `name` makes nothing of it. -/
theorem aliasTo_of_other {set : RecordSet} {name : Name}
    (elsewhere : ¬ (set.type = .cname ∧ (set.owner == name) = true))
    (outside : ¬ (set.type = .dname ∧ name.IsBelow set.owner)) : aliasTo set name = .ok none := by
  unfold aliasTo
  cases first : set.first with
  | cname target =>
    have kind : set.type = .cname := by rw [RecordSet.type, first]; rfl
    rw [not_and] at elsewhere
    simp [elsewhere kind]
  | dname target =>
    have kind : set.type = .dname := by rw [RecordSet.type, first]; rfl
    rw [not_and] at outside
    exact if_neg (outside kind)
  | _ => rfl

section

variable {question : Question} {walk : Walk} {set : RecordSet}

/-- A `set` that means `nothing` does not change the `trail`. -/
theorem trail_of_nothing {name : Name} (means : Means question name set .nothing)
    (sets : List RecordSet) : trail question (set :: sets) name = trail question sets name := by
  cases means with | nothing useless => ?_
  rw [trail]
  split
  · rfl
  rename_i useful
  rw [not_or, Decidable.not_not] at useful
  have idle : aliasTo set name = .ok none := by
    rcases useless with foreign | queryOnly | other
    · exact absurd useful.1 foreign
    · refine aliasTo_of_other (fun here => ?_) fun below => ?_
      · exact absurd queryOnly (by rw [here.1]; decide)
      · exact absurd queryOnly (by rw [below.1]; decide)
    · exact aliasTo_of_other other.2.1 other.2.2
  rw [idle]

/-- A `set` of records that are asked for does not change the `trail`. -/
theorem trail_of_answer {name : Name} (means : Means question name set .answer)
    (sets : List RecordSet) : trail question (set :: sets) name = trail question sets name := by
  cases means with | answer own ordinary answers => ?_
  rw [trail, if_pos (.inr answers)]

/-- Behind an alias the way goes on from its `target`. Data without a target does not change it. -/
theorem trail_of_cname (means : Means question walk.name set .cname) (sets : List RecordSet) :
    (∃ target, set.first = .cname target ∧ (walk.followCname set).name = target ∧
      trail question (set :: sets) walk.name = walk.name :: trail question sets target) ∨
    (walk.followCname set).name = walk.name ∧
      trail question (set :: sets) walk.name = trail question sets walk.name := by
  cases means with | cname own other kind here => ?_
  rw [trail, if_neg (not_or.mpr ⟨not_not_intro own, other⟩), Walk.followCname, aliasTo]
  cases first : set.first with
  | cname target => exact .inl ⟨target, rfl, rfl, by simp only [if_pos here]⟩
  | dname target => simp [RecordSet.type, first, RecordData.type, RecordType.dname,
      RecordType.cname] at kind
  | _ => exact .inr ⟨rfl, rfl⟩

theorem trail_suffix_of_cname (means : Means question walk.name set .cname)
    (sets : List RecordSet) :
    trail question sets (walk.followCname set).name <:+ trail question (set :: sets) walk.name := by
  obtain ⟨target, -, next, goes⟩ | ⟨next, stays⟩ := trail_of_cname means sets
  · rw [goes, next]
    exact List.suffix_cons _ _
  · have same : trail question sets (walk.followCname set).name =
        trail question (set :: sets) walk.name := by rw [stays, next]
    exact same ▸ List.suffix_refl _

/-- Behind an alias of a subtree the way goes on from the `name` as it is rewritten, or ends. -/
theorem trail_of_dname (means : Means question walk.name set .dname) (sets : List RecordSet) :
    (∃ next, walk.followDname set = some next ∧
      trail question sets next.name <:+ trail question (set :: sets) walk.name) ∨
    walk.followDname set = none ∧ trail question (set :: sets) walk.name = [walk.name] := by
  cases means with | dname own other kind below => ?_
  rw [trail, if_neg (not_or.mpr ⟨not_not_intro own, other⟩), Walk.followDname, aliasTo]
  cases first : set.first with
  | dname target =>
    simp only
    cases walk.name.rewrite? set.owner target with
    | error error => exact .inr ⟨rfl, rfl⟩
    | ok next =>
      refine .inl ⟨_, rfl, ?_⟩
      cases next with
      | none => exact List.suffix_refl _
      | some next => exact List.suffix_cons _ _
  | cname target => simp [RecordSet.type, first, RecordData.type, RecordType.dname,
      RecordType.cname] at kind
  | _ => exact .inl ⟨_, rfl, List.suffix_refl _⟩

end

/-! ## The walk -/

theorem destination_of_suffix {question : Question} {sets others : List RecordSet}
    {name next : Name} (suffix : trail question sets next <:+ trail question others name) :
    destination question others name = destination question sets next := by
  obtain ⟨front, append⟩ := suffix
  simp only [destination, ← append]
  exact List.getLast_append_of_ne_nil _ (trail_ne_nil question sets next)

theorem destination_cons {question : Question} {set : RecordSet} {sets : List RecordSet}
    {name : Name} (same : trail question (set :: sets) name = trail question sets name) :
    destination question (set :: sets) name = destination question sets name := by
  simp only [destination, same]

/-- The `walk` through an answer section ends where the way does. -/
theorem name_walked (question : Question) (walk : Walk) (sets : List RecordSet) :
    (walked question walk sets).name = destination question sets walk.name := by
  induction sets generalizing walk with
  | nil => rfl
  | cons set sets ih =>
    have means := means_meaning walk question set
    unfold walked
    cases meaning : walk.meaning question set with
    | nothing =>
      rw [meaning] at means
      rw [ih, destination_cons (trail_of_nothing means sets)]
    | answer =>
      rw [meaning] at means
      rw [ih, destination_cons (trail_of_answer means sets)]
      rfl
    | cname =>
      rw [meaning] at means
      rw [ih, destination_of_suffix (trail_suffix_of_cname means sets)]
    | dname =>
      rw [meaning] at means
      obtain ⟨next, follows, suffix⟩ | ⟨stuck, ends⟩ := trail_of_dname means sets
      · rw [follows, ih, destination_of_suffix suffix]
      · simp only [stuck, destination, ends, List.getLast_singleton]

/-- What is written on the way are records that are asked for, at a `name` that is passed, and
aliases of such a name or of a subtree around it. -/
theorem mem_answerWrites {question : Question} {credibility : Credibility} {walk : Walk}
    {sets : List RecordSet} {write : Write}
    (member : write ∈ answerWrites question credibility walk sets) :
    ∃ set ∈ sets, write = .ofSet set credibility ∧ ∃ name ∈ trail question sets walk.name,
      ∃ meaning, meaning ≠ .nothing ∧ Means question name set meaning := by
  induction sets generalizing walk with
  | nil => cases member
  | cons set sets ih =>
    have means := means_meaning walk question set
    have here := mem_trail_self question (set :: sets) walk.name
    -- what is written further on is written on a later part of the way
    have later {next : Walk} (written : write ∈ answerWrites question credibility next sets)
        (suffix : trail question sets next.name <:+ trail question (set :: sets) walk.name) :
        ∃ other ∈ set :: sets, write = .ofSet other credibility ∧
          ∃ name ∈ trail question (set :: sets) walk.name,
            ∃ meaning, meaning ≠ .nothing ∧ Means question name other meaning := by
      obtain ⟨other, among, is, name, passed, rest⟩ := ih written
      exact ⟨other, List.mem_cons_of_mem _ among, is, name, suffix.subset passed, rest⟩
    unfold answerWrites at member
    cases meaning : walk.meaning question set with
    | nothing =>
      rw [meaning] at means member
      exact later member (trail_of_nothing means sets ▸ List.suffix_refl _)
    | answer =>
      rw [meaning] at means member
      obtain rfl | written := List.mem_cons.mp member
      · exact ⟨set, List.mem_cons_self, rfl, walk.name, here, .answer, by simp, means⟩
      · exact later written (trail_of_answer means sets ▸ List.suffix_refl _)
    | cname =>
      rw [meaning] at means member
      obtain rfl | written := List.mem_cons.mp member
      · exact ⟨set, List.mem_cons_self, rfl, walk.name, here, .cname, by simp, means⟩
      · exact later written (trail_suffix_of_cname means sets)
    | dname =>
      rw [meaning] at means member
      obtain rfl | written := List.mem_cons.mp member
      · exact ⟨set, List.mem_cons_self, rfl, walk.name, here, .dname, by simp, means⟩
      · obtain ⟨next, follows, suffix⟩ | ⟨stuck, -⟩ := trail_of_dname means sets
        · rw [follows] at written
          exact later written suffix
        · rw [stuck] at written
          cases written

end Cache

end NameResolution
