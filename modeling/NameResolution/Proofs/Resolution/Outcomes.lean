import NameResolution.Proofs.Names
import NameResolution.Resolution.Outcome

/-!
# What responses mean

* `Outcome.Means`: all that a response can mean, and when.
* `Outcome.isSubdomainOf_of_classify`: a referral is to a zone around the name asked for.
-/

namespace NameResolution

namespace Outcome

theorem mem_of_closest {sets : List RecordSet} {set : RecordSet} (found : closest sets = some set) :
    set ∈ sets := by
  induction sets generalizing set with
  | nil => cases found
  | cons first sets ih =>
    unfold closest at found
    split at found
    · obtain rfl := Option.some.inj found
      exact List.mem_cons_self
    · rename_i other rest
      split at found
      · obtain rfl := Option.some.inj found
        exact List.mem_cons_self
      · obtain rfl := Option.some.inj found
        exact List.mem_cons_of_mem _ (ih rest)

/-- What a `response` can mean. -/
inductive Means (response : Message) (name : Name) (type : RecordType) : Outcome → Prop
  | answer {answer : Answer}
    (leads : follow (response.sets .answer) type ((response.sets .answer).length + 1) name =
      .found answer) : Means response name type (.answer answer)
  | alias {reached : Name}
    (leads : follow (response.sets .answer) type ((response.sets .answer).length + 1) name =
      .ends reached)
    (away : ¬(reached == name)) : Means response name type (.alias reached)
  | referral {reached : Name} {servers : RecordSet}
    (leads : follow (response.sets .answer) type ((response.sets .answer).length + 1) name =
      .ends reached)
    (exist : response.rcode ≠ .nxDomain) (same : (reached == name) = true)
    (delegated : delegated? (response.sets .authority) reached = some servers)
    (unanswered : response.sets .answer = []) :
    Means response name type (.referral ⟨servers, glueFor servers (response.sets .additional)⟩)
  | nxDomain (missing : response.rcode = .nxDomain) : Means response name type .nxDomain
  | noData : Means response name type .noData

theorem means_classify (response : Message) (name : Name) (type : RecordType) :
    Means response name type (classify response name type) := by
  -- The cases are those of `classify`, in its order.
  unfold classify
  dsimp only
  split
  · rename_i answer leads
    exact .answer leads
  rename_i reached leads
  split
  · rename_i missing
    exact .nxDomain missing
  rename_i exist
  split
  · rename_i away
    exact .alias leads away
  rename_i same
  split
  · rename_i servers delegated
    split
    · rename_i empty
      exact .referral leads exist (Decidable.not_not.mp same) delegated (List.isEmpty_iff.mp empty)
    · exact .noData
  · exact .noData

theorem follow_of_classify {response : Message} {name : Name} {type : RecordType} {answer : Answer}
    (classified : classify response name type = .answer answer) :
    follow (response.sets .answer) type ((response.sets .answer).length + 1) name =
      .found answer := by
  have means := means_classify response name type
  rw [classified] at means
  cases means with | answer leads => exact leads

/-- Servers that an `authority` section refers to are name servers of a zone around the `name`. -/
theorem delegated?_eq_some {authority : List RecordSet} {name : Name} {servers : RecordSet}
    (delegated : delegated? authority name = some servers) :
    servers ∈ authority ∧ servers.type = .ns ∧ name.IsSubdomainOf servers.owner := by
  unfold delegated? at delegated
  split at delegated
  · cases delegated
  · obtain ⟨member, around⟩ := List.mem_filter.mp (mem_of_closest delegated)
    simp only [Bool.decide_and, Bool.and_eq_true, decide_eq_true_eq] at around
    exact ⟨member, around⟩

/-- A `referral` is to a `zone` around the `name` that was asked for. -/
theorem isSubdomainOf_of_classify {response : Message} {name : Name} {type : RecordType}
    {referral : Referral} (refers : classify response name type = .referral referral) :
    name.IsSubdomainOf referral.zone := by
  have means := means_classify response name type
  rw [refers] at means
  cases means with | referral leads exist same delegated unanswered => ?_
  exact (delegated?_eq_some delegated).2.2.congr same

end Outcome

end NameResolution
