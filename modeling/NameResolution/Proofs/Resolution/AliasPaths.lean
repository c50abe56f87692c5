import NameResolution.Proofs.CanonicalNames
import NameResolution.Proofs.Resolution.Outcomes

/-!
# How far aliases are followed

The aliases of an answer section lead from a name to another one, from there to a third one, and so
on. `Outcome.follow` looks at one name more than the section has record sets. This is enough for
CNAME records: a set of these belongs to one name, to which a way to an answer does not come back.
A set of DNAME records may be used for several names on one way, which can take more steps.

* `Outcome.nameAfter?`, `Outcome.setAfter?`: the names on the way, and the sets that lead on.
* `Outcome.FirstAt`: the first name with records of a type, and how far away it is.
* `Outcome.follow_eq_found_iff`: it is found if there are more steps than aliases before it.
* `Outcome.FirstAt.le_length`: there are, unless a set of DNAME records is used twice.
* `Outcome.classify_of_aliases`: what this means for the outcome of a response.
-/

namespace NameResolution

namespace Outcome

/-- The `name` that so many aliases lead to, one after the other. -/
def nameAfter? (sets : List RecordSet) : (count : Nat) → Name → Option Name
  | 0, name => some name
  | count + 1, name => (aliasStep? sets name).bind (nameAfter? sets count)

/-- The record set that makes the `name` so many aliases away an alias of the next one. -/
def setAfter? (sets : List RecordSet) (count : Nat) (name : Name) : Option RecordSet :=
  (nameAfter? sets count name).bind fun between =>
    sets.find? fun set => (aliasBy? between set).isSome

/-- The first `name` with records of the `type` is so many aliases away. -/
structure FirstAt (sets : List RecordSet) (type : RecordType) (name : Name) (count : Nat)
    (last : Name) : Prop where
  leads : nameAfter? sets count name = some last
  carries : setsAt sets last type ≠ []
  bare : ∀ earlier < count, ∀ between, nameAfter? sets earlier name = some between →
    setsAt sets between type = []

/-- No two of `count` aliases in a row are due to the same set of DNAME records. -/
def DnamesOnce (sets : List RecordSet) (name : Name) (count : Nat) : Prop :=
  ∀ earlier later, earlier < later → later < count → ∀ set,
    setAfter? sets earlier name = some set → setAfter? sets later name = some set →
      ∀ target, set.first ≠ .dname target

variable {sets : List RecordSet} {type : RecordType} {name last : Name} {count : Nat}

/-! ## The names on the way -/

theorem nameAfter?_eq_iterate? (sets : List RecordSet) :
    nameAfter? sets = iterate? (aliasStep? sets) := by
  funext count
  induction count with
  | zero => rfl
  | succ count ih =>
    funext name
    exact congrArg (Option.bind (aliasStep? sets name)) ih

theorem nameAfter?_add (first second : Nat) (name : Name) :
    nameAfter? sets (first + second) name =
      (nameAfter? sets first name).bind (nameAfter? sets second) := by
  rw [nameAfter?_eq_iterate?, iterate?_add]

/-- The first `set` that makes a `name` an alias decides which one it is an alias of. -/
theorem aliasStep?_eq_bind (sets : List RecordSet) (name : Name) : aliasStep? sets name =
    (sets.find? fun set => (aliasBy? name set).isSome).bind (aliasBy? name) := by
  unfold aliasStep?
  induction sets with
  | nil => rfl
  | cons set sets ih =>
    rw [List.findSome?_cons, List.find?_cons]
    cases next : aliasBy? name set with
    | none => exact ih
    | some target => rw [Option.isSome_some, Option.bind_some, next]

/-- A `set` that leads on from a `name` on the way is one of the section, and leads to the next
name. -/
theorem setAfter?_eq_some {set : RecordSet} (uses : setAfter? sets count name = some set) :
    set ∈ sets ∧ ∃ between next, nameAfter? sets count name = some between ∧
      aliasBy? between set = some next ∧ nameAfter? sets (count + 1) name = some next := by
  obtain ⟨between, reaches, found⟩ := Option.bind_eq_some_iff.mp uses
  obtain ⟨next, leads⟩ : ∃ next, aliasBy? between set = some next :=
    Option.isSome_iff_exists.mp (by simpa using List.find?_some found)
  refine ⟨List.mem_of_find?_eq_some found, between, next, reaches, leads, ?_⟩
  rw [nameAfter?_add, reaches, Option.bind_some, nameAfter?, aliasStep?_eq_bind, found,
    Option.bind_some, leads]
  rfl

/-- On the way to another `name`, a `set` leads on from every name. -/
theorem exists_setAfter? {earlier : Nat} (less : earlier < count)
    (leads : nameAfter? sets count name = some last) :
    ∃ set, setAfter? sets earlier name = some set := by
  rw [nameAfter?_eq_iterate?] at leads
  obtain ⟨between, next, reaches, points⟩ := exists_step less leads
  rw [aliasStep?_eq_bind] at points
  obtain ⟨set, found, -⟩ := Option.bind_eq_some_iff.mp points
  exact ⟨set, by rw [setAfter?, nameAfter?_eq_iterate?, reaches, Option.bind_some, found]⟩

/-- A `set` of CNAME records leads to the same `name`, wherever it is used. -/
theorem aliasBy?_of_not_dname {set : RecordSet} {other next next' : Name}
    (plain : ∀ target, set.first ≠ .dname target) (leads : aliasBy? name set = some next)
    (leads' : aliasBy? other set = some next') : next = next' := by
  unfold aliasBy? at leads leads'
  split at leads
  · rename_i target is
    rw [is] at leads'
    dsimp only at leads'
    split at leads <;> split at leads'
    · exact Option.some.inj (leads.symm.trans leads')
    all_goals contradiction
  · rename_i target is
    exact absurd is (plain target)
  · cases leads

/-! ## The first name with records -/

theorem firstAt_zero : FirstAt sets type name 0 last ↔
    last = name ∧ setsAt sets name type ≠ [] := by
  constructor
  · rintro ⟨leads, carries, -⟩
    obtain rfl := Option.some.inj leads
    exact ⟨rfl, carries⟩
  · rintro ⟨rfl, carries⟩
    exact ⟨rfl, carries, fun earlier less => absurd less (Nat.not_lt_zero earlier)⟩

/-- The way to the first `name` with records of the `type` leads over the name that the one at hand
is an alias of. -/
theorem firstAt_succ : FirstAt sets type name (count + 1) last ↔
    setsAt sets name type = [] ∧
      ∃ next, aliasStep? sets name = some next ∧ FirstAt sets type next count last := by
  constructor
  · rintro ⟨leads, carries, bare⟩
    obtain ⟨next, points, rest⟩ := Option.bind_eq_some_iff.mp leads
    refine ⟨bare 0 (Nat.succ_pos count) name rfl, next, points, rest, carries, ?_⟩
    intro earlier less between reaches
    refine bare (earlier + 1) (Nat.succ_lt_succ less) between ?_
    rw [nameAfter?, points, Option.bind_some, reaches]
  · rintro ⟨here, next, points, leads, carries, bare⟩
    refine ⟨by rw [nameAfter?, points, Option.bind_some, leads], carries, ?_⟩
    intro earlier less between reaches
    cases earlier with
    | zero => exact Option.some.inj reaches ▸ here
    | succ earlier =>
      rw [nameAfter?, points, Option.bind_some] at reaches
      exact bare earlier (Nat.lt_of_succ_lt_succ less) between reaches

/-- A `name` with records is the first one itself. -/
theorem firstAt_of_carries (carries : setsAt sets name type ≠ []) :
    FirstAt sets type name count last ↔ count = 0 ∧ last = name := by
  cases count with
  | zero => simp [firstAt_zero, carries]
  | succ count => simp [firstAt_succ, carries]

/-- From a `name` without records the way leads on. -/
theorem firstAt_of_bare (bare : setsAt sets name type = []) :
    FirstAt sets type name count last ↔ ∃ further next, count = further + 1 ∧
      aliasStep? sets name = some next ∧ FirstAt sets type next further last := by
  cases count with
  | zero => simp [firstAt_zero, bare]
  | succ count => simp [firstAt_succ, bare]

/-- Aliases are followed to the first `name` with records of the `type` if there are enough
`steps`. -/
theorem follow_eq_found_iff {steps : Nat} {answer : Answer} :
    follow sets type steps name = .found answer ↔
      ∃ count < steps, FirstAt sets type name count answer.canonical ∧
        answer.sets = setsAt sets answer.canonical type := by
  induction steps generalizing name with
  | zero => simp [follow]
  | succ steps ih =>
    rw [follow]
    -- From a name without records the way goes on, and a name with records is its end.
    by_cases bare : setsAt sets name type = []
    · rw [if_pos (List.isEmpty_iff.mpr bare)]
      simp only [firstAt_of_bare bare]
      cases points : aliasStep? sets name with
      | none => simp
      | some next =>
        rw [ih]
        constructor
        · rintro ⟨count, less, first, all⟩
          exact ⟨_, Nat.succ_lt_succ less, ⟨count, next, rfl, rfl, first⟩, all⟩
        · rintro ⟨_, less, ⟨count, _, rfl, same, first⟩, all⟩
          obtain rfl := Option.some.inj same
          exact ⟨count, Nat.lt_of_succ_lt_succ less, first, all⟩
    · rw [if_neg (mt List.isEmpty_iff.mp bare)]
      simp only [firstAt_of_carries bare]
      constructor
      · intro found
        obtain rfl := Trail.found.inj found
        exact ⟨0, Nat.succ_pos steps, ⟨rfl, rfl⟩, rfl⟩
      · rintro ⟨_, -, ⟨rfl, same⟩, all⟩
        rw [← same, ← all]

/-- The way to the first `name` with records does not come to one name twice. -/
theorem FirstAt.not_again (first : FirstAt sets type name count last) {earlier later : Nat}
    (less : earlier < later) (le : later ≤ count) {between : Name}
    (reaches : nameAfter? sets earlier name = some between) :
    nameAfter? sets later name ≠ some between := by
  intro again
  -- What follows the second visit follows the first one too, and ends in an earlier place.
  have sooner : nameAfter? sets (earlier + (count - later)) name = some last := by
    rw [nameAfter?_add, reaches, ← again, ← nameAfter?_add, Nat.add_sub_cancel' le, first.leads]
  exact first.carries (first.bare _ (by omega) last sooner)

/-- There are at least as many record `sets` as aliases on the way to the first `name` with records,
unless a set of DNAME records is used twice. -/
theorem FirstAt.le_length (first : FirstAt sets type name count last)
    (once : DnamesOnce sets name count) : count ≤ sets.length := by
  have apart : ∀ earlier later, earlier < later → later < count →
      setAfter? sets earlier name ≠ setAfter? sets later name := by
    intro earlier later less before same
    obtain ⟨set, uses⟩ := exists_setAfter? before first.leads
    have also := same.trans uses
    obtain ⟨-, between, next, -, leads, reaches⟩ := setAfter?_eq_some also
    obtain ⟨-, between', next', -, leads', again⟩ := setAfter?_eq_some uses
    obtain rfl := aliasBy?_of_not_dname (once earlier later less before set also uses) leads leads'
    exact first.not_again (Nat.succ_lt_succ less) before reaches again
  refine le_length_of_apart (fun earlier less => ?_) apart
  obtain ⟨set, uses⟩ := exists_setAfter? less first.leads
  exact ⟨set, (setAfter?_eq_some uses).1, uses⟩

/-! ## Responses -/

/-- The outcome of a `response` is an `answer` if aliases lead to a `name` with records of the
`type`, and to the first such name after at most as many aliases as the answer section has record
`sets`. -/
theorem classify_eq_answer_iff {response : Message} {answer : Answer} :
    classify response name type = .answer answer ↔
      ∃ count ≤ (response.sets .answer).length,
        FirstAt (response.sets .answer) type name count answer.canonical ∧
          answer.sets = setsAt (response.sets .answer) answer.canonical type := by
  have found : classify response name type = .answer answer ↔
      follow (response.sets .answer) type ((response.sets .answer).length + 1) name =
        .found answer := by
    refine ⟨follow_of_classify, fun leads => ?_⟩
    unfold classify
    dsimp only
    rw [leads]
  rw [found, follow_eq_found_iff]
  exact exists_congr fun count => and_congr_left' Nat.lt_succ_iff

/-- There is one first `name` with records of the `type` at most. -/
theorem FirstAt.unique {other : Nat} {name' : Name} (first : FirstAt sets type name count last)
    (second : FirstAt sets type name other name') : count = other := by
  have not_lt {near far : Nat} {nearest farthest : Name}
      (before : FirstAt sets type name near nearest)
      (after : FirstAt sets type name far farthest) : ¬ near < far := fun less =>
    before.carries (after.bare near less nearest before.leads)
  exact Nat.le_antisymm (Nat.not_lt.mp (not_lt second first)) (Nat.not_lt.mp (not_lt first second))

/-- Aliases in a `response` are followed to the name `FirstAt` which there are records of the
`type`, if it is not more aliases away than there are record sets in the answer section. The answer
is all of these records at this name. It can only be farther away if a set of DNAME records is used
twice on the way (otherwise `DnamesOnce`), and then there is no answer. Neither is there one if
aliases lead to no such name. -/
theorem classify_of_aliases (response : Message) (name : Name) (type : RecordType) :
    (∀ count last, FirstAt (response.sets .answer) type name count last →
      (count ≤ (response.sets .answer).length → classify response name type =
        .answer ⟨last, setsAt (response.sets .answer) last type⟩) ∧
      ((response.sets .answer).length < count → ∀ answer,
        classify response name type ≠ .answer answer) ∧
      (DnamesOnce (response.sets .answer) name count →
        count ≤ (response.sets .answer).length)) ∧
    ((∀ count last, nameAfter? (response.sets .answer) count name = some last →
      setsAt (response.sets .answer) last type = []) → ∀ answer,
        classify response name type ≠ .answer answer) := by
  refine ⟨fun count last first => ⟨fun near => ?_, fun far answer classified => ?_, ?_⟩,
    fun bare answer classified => ?_⟩
  · exact classify_eq_answer_iff.mpr ⟨count, near, first, rfl⟩
  · obtain ⟨other, near, nearer, -⟩ := classify_eq_answer_iff.mp classified
    have := first.unique nearer
    omega
  · exact first.le_length
  · obtain ⟨count, -, first, -⟩ := classify_eq_answer_iff.mp classified
    exact first.carries (bare count _ first.leads)

/-- A response that makes `x.a.` an alias of `x.b.`, renames all below `b.` to names below `c.`,
and has an address of `x.c.`. -/
def renamed : Message where
  header := Header.empty.setResponse true
  questions := []
  answer :=
    [⟨.spelled [120, 97], .internet, 300, .cname (.spelled [120, 98])⟩,
      ⟨.top 98, .internet, 300, .dname (.top 99)⟩,
      ⟨.spelled [120, 99], .internet, 300, .a (.ofOctets 192 0 2 10)⟩]
  authority := []
  additional := []

/-- A response that renames all below `b.a.` to names below `a.`, and has an address of `x.a.`. -/
def renamedOften : Message where
  header := Header.empty.setResponse true
  questions := []
  answer :=
    [⟨.spelled [98, 97], .internet, 300, .dname (.top 97)⟩,
      ⟨.spelled [120, 97], .internet, 300, .a (.ofOctets 192 0 2 10)⟩]
  authority := []
  additional := []

/-- In the `renamed` message an alias of each kind leads to the address. -/
theorem classify_renamed :
    FirstAt (renamed.sets .answer) .a (.spelled [120, 97]) 2
      (.spelled [120, 99]) ∧
    classify renamed (.spelled [120, 97]) .a =
      .answer ⟨.spelled [120, 99],
        setsAt (renamed.sets .answer) (.spelled [120, 99]) .a⟩ := by
  have first : FirstAt (renamed.sets .answer) .a (.spelled [120, 97]) 2
      (.spelled [120, 99]) := ⟨by decide, by decide, by decide⟩
  exact ⟨first, ((classify_of_aliases renamed _ .a).1 2 _ first).1 (by decide)⟩

/-- Three aliases lead from `x.b.b.b.a.` to `x.a.`, each to another name. As there are two record
sets only, the address is not found. -/
theorem classify_renamedOften :
    FirstAt (renamedOften.sets .answer) .a (.spelled [120, 98, 98, 98, 97]) 3
      (.spelled [120, 97]) ∧
    classify renamedOften (.spelled [120, 98, 98, 98, 97]) .a =
      .alias (.spelled [120, 97]) := by
  refine ⟨⟨?_, ?_, ?_⟩, ?_⟩ <;> decide

end Outcome

end NameResolution
