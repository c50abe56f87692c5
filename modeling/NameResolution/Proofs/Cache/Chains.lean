import NameResolution.Proofs.Cache.Trails

/-!
# Chains of aliases

Without aliases of subtrees, the way through an answer section goes from alias to alias, and all of
them are kept.

* `Cache.exists_hop`: each name that is passed but the last one has an alias, which is kept, and
  whose target is passed as well.
* `Cache.answered_of_destination`: records that are asked for are kept if the aliases in front of
  them lead to their owner.
-/

namespace NameResolution

namespace Cache

variable {question : Question} {credibility : Credibility} {walk : Walk}

/-- A `walk` can be taken in two parts. -/
theorem walk_append {sets : List RecordSet} (plain : ∀ set ∈ sets, set.type ≠ .dname)
    (rest : List RecordSet) :
    walked question walk (sets ++ rest) = walked question (walked question walk sets) rest ∧
    answerWrites question credibility walk (sets ++ rest) =
      answerWrites question credibility walk sets ++
        answerWrites question credibility (walked question walk sets) rest := by
  induction sets generalizing walk with
  | nil => exact ⟨rfl, rfl⟩
  | cons set sets ih =>
    rw [List.forall_mem_cons] at plain
    have means := means_meaning walk question set
    cases meaning : walk.meaning question set with
    | nothing =>
      simp only [List.cons_append, walked, answerWrites, meaning]
      exact ih plain.2
    | answer =>
      simp only [List.cons_append, walked, answerWrites, meaning]
      exact (ih plain.2).imp_right fun same => congrArg (List.cons _) same
    | cname =>
      simp only [List.cons_append, walked, answerWrites, meaning]
      exact (ih plain.2).imp_right fun same => congrArg (List.cons _) same
    | dname =>
      rw [meaning] at means
      cases means with | dname own other kind below => exact absurd kind plain.1

/-- The names of a `trail` are passed on the whole way, however many sets follow. -/
theorem trail_subset_append (question : Question) (sets rest : List RecordSet) (name : Name) :
    trail question sets name ⊆ trail question (sets ++ rest) name := by
  induction sets generalizing name with
  | nil => exact List.cons_subset.mpr ⟨mem_trail_self question rest name, List.nil_subset _⟩
  | cons set sets ih =>
    rw [List.cons_append]
    unfold trail
    split
    · exact ih name
    · split
      · exact List.cons_subset_cons name (ih _)
      · exact ih name
      · exact List.Subset.refl _

/-- An answer that was met is not forgotten: a `completed` walk stays completed. -/
theorem completed_walked {sets : List RecordSet} (completed : walk.completed = true) :
    (walked question walk sets).completed = true := by
  induction sets generalizing walk with
  | nil => exact completed
  | cons set sets ih =>
    unfold walked
    cases walk.meaning question set with
    | nothing => exact ih completed
    | answer => exact ih rfl
    | cname => exact ih completed
    | dname =>
      cases follows : walk.followDname set with
      | none => exact completed
      | some next =>
        refine ih ?_
        obtain ⟨name, rfl⟩ := Walk.followDname_eq_some follows
        exact completed

/-- A `name` that is passed on the way, and at which this does not end, has an alias that is kept.
The way goes on from its `target`. -/
theorem exists_hop {sets : List RecordSet} (plain : ∀ set ∈ sets, set.type ≠ .dname) {name : Name}
    (passes : name ∈ trail question sets walk.name)
    (further : ¬ (name == destination question sets walk.name) = true) :
    ∃ set ∈ sets, ∃ target, set.first = .cname target ∧ (set.owner == name) = true ∧
      set.recordClass = question.recordClass ∧ target ∈ trail question sets walk.name ∧
      .ofSet set credibility ∈ answerWrites question credibility walk sets := by
  induction sets generalizing walk with
  | nil =>
    obtain rfl := List.mem_singleton.mp passes
    exact absurd (Name.beq_self _) further
  | cons set sets ih =>
    rw [List.forall_mem_cons] at plain
    have means := means_meaning walk question set
    unfold answerWrites
    cases meaning : walk.meaning question set with
    | nothing =>
      rw [meaning] at means
      -- A set without a meaning for the walk leaves the way as it is, and so does an answer.
      have same := trail_of_nothing means sets
      rw [destination_cons same] at further
      rw [same] at passes ⊢
      obtain ⟨own, among, target, first, here, recordClass, next, written⟩ :=
        ih plain.2 passes further
      exact ⟨own, List.mem_cons_of_mem _ among, target, first, here, recordClass, next, written⟩
    | answer =>
      rw [meaning] at means
      have same := trail_of_answer means sets
      rw [destination_cons same] at further
      rw [same] at passes ⊢
      obtain ⟨own, among, target, first, here, recordClass, next, written⟩ :=
        @ih (walk.complete set) plain.2 passes further
      exact ⟨own, List.mem_cons_of_mem _ among, target, first, here, recordClass, next,
        List.mem_cons_of_mem _ written⟩
    | cname =>
      rw [meaning] at means
      have hop (passes : name ∈ trail question sets (walk.followCname set).name)
          (further : ¬ (name == destination question sets (walk.followCname set).name) = true) :=
        ih plain.2 passes further
      obtain ⟨target, first, next, goes⟩ | ⟨next, same⟩ := trail_of_cname means sets
      · rw [next] at hop
        rw [destination_of_suffix (goes ▸ List.suffix_cons _ _)] at further
        rw [goes] at passes ⊢
        -- The name is the one at hand, which this set makes an alias, or one farther on.
        obtain rfl | later := List.mem_cons.mp passes
        · cases means with | cname own other kind here => ?_
          exact ⟨set, List.mem_cons_self, target, first, here, own,
            List.mem_cons_of_mem _ (mem_trail_self question sets target), List.mem_cons_self⟩
        · obtain ⟨own, among, target, first, here, recordClass, next, written⟩ := hop later further
          exact ⟨own, List.mem_cons_of_mem _ among, target, first, here, recordClass,
            List.mem_cons_of_mem _ next, List.mem_cons_of_mem _ written⟩
      · rw [next] at hop
        rw [destination_cons same] at further
        rw [same] at passes ⊢
        obtain ⟨own, among, target, first, here, recordClass, next, written⟩ := hop passes further
        exact ⟨own, List.mem_cons_of_mem _ among, target, first, here, recordClass, next,
          List.mem_cons_of_mem _ written⟩
    | dname =>
      rw [meaning] at means
      cases means with | dname own other kind below => exact absurd kind plain.1

/-- Records that are asked for are kept if the aliases in front of them lead to their owner, which
is the `destination` of the way there. -/
theorem answered_of_destination {sets : List RecordSet} (plain : ∀ set ∈ sets, set.type ≠ .dname)
    {set : RecordSet} (own : set.recordClass = question.recordClass)
    (ordinary : ¬ set.type.IsQueryOnly)
    (answers : Answers question (destination question sets walk.name) set) (rest : List RecordSet) :
    (walked question walk (sets ++ set :: rest)).completed = true ∧
    .ofSet set credibility ∈ answerWrites question credibility walk (sets ++ set :: rest) := by
  obtain ⟨walks, writes⟩ := @walk_append question credibility walk sets plain (set :: rest)
  have meaning : (walked question walk sets).meaning question set = .answer := by
    rw [← name_walked] at answers
    unfold Walk.meaning
    rw [if_neg (not_or.mpr ⟨not_not_intro own, ordinary⟩)]
    exact if_pos answers
  rw [walks, writes]
  simp only [walked, answerWrites, meaning]
  exact ⟨completed_walked rfl, List.mem_append_right _ List.mem_cons_self⟩

end Cache

end NameResolution
