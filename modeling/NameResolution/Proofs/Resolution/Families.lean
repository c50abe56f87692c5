import NameResolution.Proofs.Resolution.Backing
import NameResolution.Proofs.Resolution.Horizons
import NameResolution.Proofs.Resolution.Strides

/-!
# What races find

A race for addresses has a pass for each family. An answer that a pass comes to has addresses of its
own family only, wherever it was found. So the addresses that the race gives are grouped by family,
in the order of its passes, whichever of them ends first.

* `Pass.Runs.isOf`: every answer of a pass for a single type is of this type.
* `Race.Goes`: all passes of a race are in the course of a run for its name. `Race.Goes.proceeds`: a
  pass that goes on keeps this.
* `Race.filter_family`: of the addresses of a race, those of a family are those of its pass.
* `FoundHosts.Honours`: what a race finds has the order of a preference.
  `Race.Goes.honours`: this is so for every race for the types of the preference.
-/

namespace NameResolution

/-! ## Answers of passes -/

namespace Pass

variable {name : Name} {type : RecordType} {deeds : List Deed} {next : Turn × List Gathering}

theorem not_mem_sending {cache : Cache} {now : Duration} :
    .consulted cache now ∉ sending next := by
  unfold sending
  split <;> simp

/-- Every `cache` that a pass looks into is `Tidy`. -/
theorem Runs.tidy_of_consulted (runs : Runs name type deeds next) {cache : Cache} {now : Duration}
    (consulted : .consulted cache now ∈ deeds) : cache.Tidy := by
  -- A run consults the cache when it begins and when it chases an alias, each time in a session
  -- that is tidy.
  induction runs with
  | begun tidy ran =>
    obtain same | sent := List.mem_cons.mp consulted
    · obtain ⟨rfl, rfl⟩ := Deed.consulted.inj same
      exact tidy
    · exact absurd sent not_mem_sending
  | waited runs happened ih => exact ih consulted
  | @settled deeds asked event registry result next before after runs happened tidy ran ih =>
    obtain earlier | sent := List.mem_append.mp consulted
    · obtain earlier | heard := List.mem_append.mp earlier
      · exact ih earlier
      · unfold hearing at heard
        split at heard
        · rename_i response used
          obtain same | chased := List.mem_cons.mp heard
          · cases same
          have learned := (Session.keeps_learn response).after tidy
          unfold chasing at chased
          split at chased
          · split at chased
            · cases chased
            · obtain ⟨rfl, rfl⟩ := Deed.consulted.inj (List.mem_singleton.mp chased)
              exact learned
          · cases chased
        · cases heard
    · exact absurd sent not_mem_sending
  | gathered runs tidy ran ih =>
    obtain earlier | sent := List.mem_append.mp consulted
    · exact ih earlier
    · exact absurd sent not_mem_sending

/-- What a pass finds is of one `type`. -/
theorem Runs.uniform_of_shown (runs : Runs name type deeds next) {set : RecordSet}
    (shown : Shown deeds set) : set.Uniform := by
  obtain ⟨cache, now, consulted, shows⟩ | ⟨query, response, -, -, among⟩ := shown
  · exact (runs.tidy_of_consulted consulted).uniform_of_shows shows
  · exact RecordSet.uniform_of_mem_group set among

/-- Every `Answer` of a pass for a single `type` is of this type. -/
theorem Runs.isOf {result : Except Failure Answer} {outer : List Gathering}
    (runs : Runs name type deeds (.finished result, outer)) (single : type ≠ .any) :
    WhenOk (Answer.IsOf type) result := by
  intro answer same set member
  have rests : WhenOk (Answer.RestsOn (Shown deeds) name type) result := runs.stands single
  obtain ⟨shown, kind, -⟩ := (rests answer same).sets set member
  exact ⟨kind, runs.uniform_of_shown shown⟩

end Pass

/-- The `addresses` of an `answer` are of the family that it is for. -/
theorem Answer.IsOf.family {type : RecordType} {answer : Answer} (isOf : answer.IsOf type)
    {address : Address} (member : address ∈ answer.addresses) : address.family = type := by
  obtain ⟨set, own, datum, part, gives⟩ := RecordSet.mem_addresses.mp member
  obtain ⟨kind, uniform⟩ := isOf set own
  exact (uniform.family part gives).trans kind

/-! ## Passes of races -/

namespace Run

/-- The `pass` is in the course of a `Run` for the `name` and the `type`. -/
def Goes (name : Name) (type : RecordType) : Run → Prop
  | unstarted => True
  | waiting pass => Pass.Conducted name type (.waiting pass)
  | ended result => Pass.Conducted name type (.finished result)

/-- The `addresses` that a pass has found. -/
def addresses : Run → List Address
  | ended (.ok answer) => answer.addresses
  | _ => []

variable {name : Name} {type : RecordType} {run : Run}

theorem goes_ofProgress {progress : Progress} (conducted : Pass.Conducted name type progress) :
    (ofProgress progress).Goes name type := by
  cases progress <;> exact conducted

theorem Goes.family (goes : run.Goes name type) (single : type ≠ .any) {address : Address}
    (member : address ∈ run.addresses) : address.family = type := by
  cases run with
  | unstarted => cases member
  | waiting pass => cases member
  | ended result =>
    obtain ⟨deeds, runs⟩ := goes
    cases result with
    | error failure => cases member
    | ok answer => exact (whenOk_ok.mp (runs.isOf single)).family member

end Run

namespace Race

/-- All passes of the `race` are in the course of a `run` for its `name`. -/
def Goes (race : Race) : Prop := ∀ type run, (type, run) ∈ race.runs → run.Goes race.name type

theorem goes_new (name : Name) (preferred : RecordType) (types : List RecordType) :
    (new name preferred types).Goes := by
  intro type run member
  obtain ⟨_, -, same⟩ := List.mem_map.mp member
  obtain ⟨-, rfl⟩ := Prod.mk.inj same
  trivial

/-- The `race` stays on course if one of its passes does. -/
theorem Goes.proceeds {race : Race} (goes : race.Goes) {front back : Runs} {type : RecordType}
    {run later : Run} (runs : race.runs = front ++ (type, run) :: back)
    (own : later.Goes race.name type) :
    Goes { race with runs := front ++ (type, later) :: back } := by
  intro other found member
  have kept (left : (other, found) ∈ front ++ back) : found.Goes race.name other := by
    refine goes other found ?_
    rw [runs]
    exact List.perm_middle.symm.subset (List.mem_cons_of_mem _ left)
  obtain same | left := List.mem_cons.mp (List.perm_middle.subset member)
  · obtain ⟨rfl, rfl⟩ := Prod.mk.inj same
    exact own
  · exact kept left

theorem flatMap_answers (race : Race) :
    race.answers.flatMap Answer.addresses = race.runs.flatMap (·.2.addresses) := by
  unfold answers results
  induction race.runs with
  | nil => rfl
  | cons run runs ih =>
    obtain ⟨type, run⟩ := run
    rw [List.flatMap_cons, ← ih]
    rcases run with _ | _ | (failure | answer) <;> rfl

/-- Of the `addresses` of a race, those of a family are those of its pass. -/
theorem filter_family {runs : Runs} (nodup : (runs.map Prod.fst).Nodup)
    (families : ∀ run ∈ runs, ∀ address ∈ run.2.addresses, address.family = run.1)
    {type : RecordType} {run : Run} (member : (type, run) ∈ runs) :
    (runs.flatMap (·.2.addresses)).filter (·.family = type) = run.addresses := by
  obtain ⟨front, back, rfl⟩ := List.append_of_mem member
  rw [List.map_append, List.map_cons, List.nodup_middle, ← List.map_append,
    List.nodup_cons] at nodup
  -- no other pass is for this type, so none has found addresses of this family
  have others {rest : Runs} (part : rest ⊆ front ++ back) :
      (rest.flatMap (·.2.addresses)).filter (·.family = type) = [] := by
    refine List.filter_eq_nil_iff.mpr fun address found => ?_
    obtain ⟨other, among, own⟩ := List.mem_flatMap.mp found
    have family := families other
      (List.perm_middle.symm.subset (List.mem_cons_of_mem _ (part among))) address own
    rw [decide_eq_true_eq, family]
    rintro rfl
    exact nodup.1 (List.mem_map.mpr ⟨other, part among, rfl⟩)
  have own : run.addresses.filter (·.family = type) = run.addresses :=
    List.filter_eq_self.mpr fun address found => by simpa using families _ member address found
  rw [List.flatMap_append, List.flatMap_cons, List.filter_append, List.filter_append, own,
    others (List.subset_append_left _ _), others (List.subset_append_right _ _), List.nil_append,
    List.append_nil]

end Race

/-! ## The order of a preference -/

/-- What a `race` has found has the order of a `preference`: the addresses are grouped by the
families that are looked up, and there are no others. Those of a family are all that the pass for it
has found, if it has an answer. The name is that of the first family in this order that has one. -/
structure FoundHosts.Honours (found : FoundHosts) (preference : Preference) (race : Race) :
    Prop where
  types : race.types = preference.types
  grouped : found.addresses =
    preference.types.flatMap fun type => found.addresses.filter (·.family = type)
  complete : ∀ type answer, (type, .ended (.ok answer)) ∈ race.runs →
    found.addresses.filter (·.family = type) = answer.addresses
  canonical : ∃ front type answer back, race.runs = front ++ (type, .ended (.ok answer)) :: back ∧
    (∀ run ∈ front, Race.answered run.2 = false) ∧ found.canonical = answer.canonical
  filled : found.addresses ≠ []

namespace Race

/-- The first `Answer` in the order of the types is that of the first pass that has one. -/
theorem exists_first {runs : Runs} {first : Answer}
    (head : ((runs.filterMap (·.2.result?)).filterMap Except.toOption).head? = some first) :
    ∃ front type back, runs = front ++ (type, .ended (.ok first)) :: back ∧
      ∀ run ∈ front, answered run.2 = false := by
  induction runs with
  | nil => cases head
  | cons run runs ih =>
    obtain ⟨type, run⟩ := run
    by_cases own : answered run = true
    · unfold answered at own
      split at own
      · obtain rfl := Option.some.inj head
        exact ⟨[], type, runs, rfl, List.forall_mem_nil _⟩
      · cases own
    · have later : ((runs.filterMap (·.2.result?)).filterMap Except.toOption).head? =
          some first := by
        rcases run with _ | _ | (failure | answer)
        · exact head
        · exact head
        · exact head
        · exact absurd rfl own
      obtain ⟨front, other, back, rfl, before⟩ := ih later
      exact ⟨(type, run) :: front, other, back, rfl,
        List.forall_mem_cons.mpr ⟨by simpa using own, before⟩⟩

/-- Whatever a `race` for the `types` of a `preference` finds has the order of the preference. -/
theorem Goes.honours {race : Race} (goes : race.Goes) {preference : Preference}
    (types : race.types = preference.types) {found : FoundHosts}
    (gives : race.addresses = .ok found) : found.Honours preference race := by
  unfold addresses at gives
  dsimp only at gives
  cases head : race.answers.head? with
  | none =>
    rw [head] at gives
    cases gives
  | some first =>
    rw [head] at gives
    dsimp only at gives
    split at gives
    · cases gives
    rename_i filled
    obtain rfl := Except.ok.inj gives
    have nodup : (race.runs.map Prod.fst).Nodup := by
      rw [show race.runs.map Prod.fst = preference.types from types]
      exact preference.nodup_types
    -- A pass for a type finds addresses of its family alone, so filtering by families is choosing
    -- passes.
    have families : ∀ run ∈ race.runs, ∀ address ∈ run.2.addresses, address.family = run.1 := by
      intro run member address own
      have looked : run.1 ∈ preference.types := types ▸ List.mem_map_of_mem member
      have single := (Preference.isAddress_of_mem looked).ordinary.2.1
      exact (goes run.1 run.2 member).family single own
    obtain ⟨front, type, back, runs, before⟩ := exists_first head
    exact {
      types := types
      grouped := by
        show race.answers.flatMap Answer.addresses = preference.types.flatMap fun type =>
          (race.answers.flatMap Answer.addresses).filter (·.family = type)
        rw [flatMap_answers, ← types, Race.types, List.flatMap_map]
        exact List.flatMap_congr fun run member => (filter_family nodup families member).symm
      complete := fun type answer member => by
        rw [flatMap_answers]
        exact filter_family nodup families member
      canonical := ⟨front, type, first, back, runs, before, rfl⟩
      filled := fun none => filled (List.isEmpty_iff.mpr none) }

end Race

end NameResolution
