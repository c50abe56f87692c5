import Mathlib.Data.List.Perm.Subperm
import Mathlib.Logic.Relation
import NameResolution.Message
import NameResolution.Proofs.Names

/-!
# Canonical names

The CNAME records of an answer section lead from a name to another one, from there to a third one,
and so on, until a name has no such record, or without end. `Message.canonicalName?` takes no more
steps than there are records and one more. This is enough: each name on the way to an end owns a
record, and no two of these names are the same, not even but for ASCII case.

* `le_length_of_apart`: no more different items can be taken from a list than it has.
* `iterate?`: what so many steps lead to, if each of them can be made.
* `Message.FirstAlias`: the first CNAME record of a name leads to another one.
* `Message.EndsAfter`: so many aliases lead to a name that is no alias.
* `Message.EndsAfter.le_length`: a way to an end is not longer than the answer section.
* `Message.canonicalName_decides`: the canonical name is where the aliases end, and there is none
  exactly if they do not end.
-/

namespace NameResolution

/-- A list out of which different `items` can be taken has at least as many. -/
theorem le_length_of_apart {α : Type} {items : List α} {count : Nat} {item : Nat → Option α}
    (within : ∀ index < count, ∃ own ∈ items, item index = some own)
    (apart : ∀ earlier later, earlier < later → later < count → item earlier ≠ item later) :
    count ≤ items.length := by
  have nodup : ((List.range count).map item).Nodup := by
    rw [List.Nodup, List.pairwise_map]
    refine List.pairwise_lt_range.imp_of_mem fun {earlier later} _ below less => ?_
    exact apart earlier later less (List.mem_range.mp below)
  have subset : (List.range count).map item ⊆ items.map some := by
    intro taken member
    obtain ⟨index, below, rfl⟩ := List.mem_map.mp member
    obtain ⟨own, among, is⟩ := within index (List.mem_range.mp below)
    exact is ▸ List.mem_map_of_mem among
  simpa using (nodup.subperm subset).length_le

/-! ## Steps one after the other -/

section Iteration

variable {α : Type} {step : α → Option α} {item reached last : α} {count : Nat}

/-- What `count` steps lead to, one after the other. -/
def iterate? (step : α → Option α) : (count : Nat) → α → Option α
  | 0, item => some item
  | count + 1, item => (step item).bind (iterate? step count)

theorem iterate?_add (step : α → Option α) (first second : Nat) (item : α) :
    iterate? step (first + second) item =
      (iterate? step first item).bind (iterate? step second) := by
  induction first generalizing item with
  | zero => rw [Nat.zero_add, iterate?, Option.bind_some]
  | succ first ih =>
    rw [Nat.succ_add, iterate?, iterate?, Option.bind_assoc]
    exact congrArg _ (funext ih)

/-- One more `step` goes on from where the others lead to. -/
theorem iterate?_succ (leads : iterate? step count item = some reached) :
    iterate? step (count + 1) item = step reached := by
  rw [iterate?_add, leads, Option.bind_some, iterate?]
  exact Option.bind_fun_some _

/-- Every place on a way splits it: the one at `index` is `between` the two parts. -/
theorem exists_between {index : Nat} (le : index ≤ count)
    (leads : iterate? step count item = some last) :
    ∃ between, iterate? step index item = some between ∧
      iterate? step (count - index) between = some last := by
  rw [← Nat.add_sub_cancel' le, iterate?_add] at leads
  exact Option.bind_eq_some_iff.mp leads

/-- From every place before the last one, a `step` is made. -/
theorem exists_step {index : Nat} (less : index < count)
    (leads : iterate? step count item = some last) :
    ∃ between next, iterate? step index item = some between ∧ step between = some next := by
  obtain ⟨further, rfl⟩ := Nat.exists_eq_add_of_lt less
  rw [Nat.add_assoc, iterate?_add] at leads
  obtain ⟨between, reaches, leads⟩ := Option.bind_eq_some_iff.mp leads
  obtain ⟨next, made, -⟩ := Option.bind_eq_some_iff.mp leads
  exact ⟨between, next, reaches, made⟩

end Iteration

namespace Message

/-- The first CNAME `Record` of a `name` leads to the `target`. -/
def FirstAlias (records : List Record) (name target : Name) : Prop :=
  ∃ before record after, records = before ++ record :: after ∧
    (record.owner == name) = true ∧ record.data = .cname target ∧
    ∀ earlier ∈ before, (earlier.owner == name) = true → ∀ other, earlier.data ≠ .cname other

/-- So many aliases, one after the other, lead to a `name` that is no alias. -/
@[mk_iff]
structure EndsAfter (records : List Record) (name : Name) (count : Nat) (last : Name) : Prop where
  leads : iterate? (aliasOf? records) count name = some last
  ends : aliasOf? records last = none

variable {records : List Record} {name other target last : Name} {count : Nat}

/-! ## One alias -/

theorem aliasOf?_eq_some_iff :
    aliasOf? records name = some target ↔ FirstAlias records name target := by
  rw [aliasOf?, List.findSome?_eq_some_iff]
  refine exists_congr fun before => exists_congr fun record => exists_congr fun after =>
    and_congr_right fun _ => ?_
  rw [← and_assoc]
  refine and_congr ?_ (forall_congr' fun earlier => imp_congr_right fun _ => ?_)
  · obtain ⟨owner, recordClass, ttl, data⟩ := record
    cases data <;> simp
  · obtain ⟨owner, recordClass, ttl, data⟩ := earlier
    cases data <;> simp

/-- Which `name` a name is an alias of does not depend on ASCII case. -/
theorem aliasOf?_congr (same : (name == other) = true) :
    aliasOf? records name = aliasOf? records other := by
  have folds := Name.beq_iff.mp same
  have owned (owner : Name) : (owner == name) = (owner == other) := by
    rw [Bool.eq_iff_iff, Name.beq_iff, Name.beq_iff, folds]
  simp only [aliasOf?, owned]

/-! ## The way along the aliases -/

theorem reflTransGen_iff_iterate? :
    Relation.ReflTransGen (FirstAlias records) name last ↔
      ∃ count, iterate? (aliasOf? records) count name = some last := by
  constructor
  · intro leads
    induction leads with
    | refl => exact ⟨0, rfl⟩
    | tail _ here ih =>
      obtain ⟨count, reaches⟩ := ih
      exact ⟨count + 1, (iterate?_succ reaches).trans (aliasOf?_eq_some_iff.mpr here)⟩
  · rintro ⟨count, reaches⟩
    induction count generalizing name with
    | zero => exact Option.some.inj reaches ▸ .refl
    | succ count ih =>
      obtain ⟨next, here, rest⟩ := Option.bind_eq_some_iff.mp reaches
      exact .head (aliasOf?_eq_some_iff.mp here) (ih rest)

/-! ## Ways to an end -/

theorem endsAfter_zero : EndsAfter records name 0 last ↔
    aliasOf? records name = none ∧ last = name := by
  constructor
  · rintro ⟨leads, ends⟩
    obtain rfl := Option.some.inj leads
    exact ⟨ends, rfl⟩
  · rintro ⟨ends, rfl⟩
    exact ⟨rfl, ends⟩

theorem endsAfter_succ : EndsAfter records name (count + 1) last ↔
    ∃ next, aliasOf? records name = some next ∧ EndsAfter records next count last := by
  constructor
  · rintro ⟨leads, ends⟩
    obtain ⟨next, here, rest⟩ := Option.bind_eq_some_iff.mp leads
    exact ⟨next, here, rest, ends⟩
  · rintro ⟨next, here, rest, ends⟩
    exact ⟨Option.bind_eq_some_iff.mpr ⟨next, here, rest⟩, ends⟩

/-- There is a way to an end at `last` if aliases lead there and no record leads on. -/
theorem exists_endsAfter_iff : (∃ count, EndsAfter records name count last) ↔
    Relation.ReflTransGen (FirstAlias records) name last ∧
      ∀ target, ¬FirstAlias records last target := by
  have ends : (∀ target, ¬FirstAlias records last target) ↔ aliasOf? records last = none := by
    rw [Option.eq_none_iff_forall_ne_some]
    exact forall_congr' fun target => not_congr aliasOf?_eq_some_iff.symm
  rw [ends, reflTransGen_iff_iterate?, ← exists_and_right]
  exact exists_congr fun count => endsAfter_iff records name count last

/-- Aliases are followed to where they end, if there are enough `steps`. -/
theorem followAliases_eq_some_iff {steps : Nat} : followAliases records steps name = some last ↔
    ∃ count < steps, EndsAfter records name count last := by
  induction steps generalizing name with
  | zero => simp [followAliases]
  | succ steps ih =>
    rw [followAliases]
    -- A way from here is empty, or its first step is the one alias that there is.
    cases here : aliasOf? records name with
    | none =>
      constructor
      · intro same
        exact ⟨0, Nat.succ_pos steps, endsAfter_zero.mpr ⟨here, (Option.some.inj same).symm⟩⟩
      · rintro ⟨count, -, way⟩
        cases count with
        | zero => rw [(endsAfter_zero.mp way).2]
        | succ count => simp [endsAfter_succ, here] at way
    | some next =>
      rw [ih]
      constructor
      · rintro ⟨count, less, way⟩
        exact ⟨count + 1, Nat.succ_lt_succ less, endsAfter_succ.mpr ⟨next, here, way⟩⟩
      · rintro ⟨count, less, way⟩
        cases count with
        | zero => simp [endsAfter_zero, here] at way
        | succ count =>
          obtain ⟨_, same, way⟩ := endsAfter_succ.mp way
          obtain rfl := Option.some.inj (here.symm.trans same)
          exact ⟨count, Nat.lt_of_succ_lt_succ less, way⟩

/-- Names that are the same but for ASCII case are equally far away from the end, by `count`
aliases. -/
theorem EndsAfter.count_unique {more : Nat} {last' : Name} (way : EndsAfter records name count last)
    (way' : EndsAfter records other more last') (same : (name == other) = true) :
    count = more := by
  induction count generalizing name other more with
  | zero =>
    cases more with
    | zero => rfl
    | succ more =>
      obtain ⟨next, here, -⟩ := endsAfter_succ.mp way'
      rw [← aliasOf?_congr same, (endsAfter_zero.mp way).1] at here
      cases here
  | succ count ih =>
    obtain ⟨next, here, rest⟩ := endsAfter_succ.mp way
    cases more with
    | zero =>
      rw [aliasOf?_congr same, (endsAfter_zero.mp way').1] at here
      cases here
    | succ more =>
      obtain ⟨next', here', rest'⟩ := endsAfter_succ.mp way'
      rw [aliasOf?_congr same, here', Option.some.injEq] at here
      exact congrArg Nat.succ (ih rest rest' (here ▸ Name.beq_self next'))

/-- A way to an end is not longer than the answer section: every `name` on it, but for the last one,
owns a record, and these names are all different. -/
theorem EndsAfter.le_length (way : EndsAfter records name count last) :
    count ≤ records.length := by
  have within : ∀ index < count, ∃ owner ∈ records.map fun record => record.owner.fold,
      (iterate? (aliasOf? records) index name).map Name.fold = some owner := by
    intro index less
    obtain ⟨between, next, reaches, here⟩ := exists_step less way.leads
    obtain ⟨before, record, after, rfl, owner, -⟩ := aliasOf?_eq_some_iff.mp here
    refine ⟨record.owner.fold, List.mem_map_of_mem (by simp), ?_⟩
    rw [reaches, Option.map_some, Name.beq_iff.mp owner]
  have apart : ∀ earlier later, earlier < later → later < count →
      (iterate? (aliasOf? records) earlier name).map Name.fold ≠
        (iterate? (aliasOf? records) later name).map Name.fold := by
    intro earlier later less below same
    obtain ⟨between, reaches, rest⟩ :=
      exists_between (Nat.le_of_lt (Nat.lt_trans less below)) way.leads
    obtain ⟨again, comes, rest'⟩ := exists_between (Nat.le_of_lt below) way.leads
    rw [reaches, comes, Option.map_some, Option.map_some, Option.some.injEq] at same
    -- From both names the end is equally far away, but the later one is nearer to it.
    have := count_unique ⟨rest, way.ends⟩ ⟨rest', way.ends⟩ (Name.beq_iff.mpr same)
    omega
  simpa using le_length_of_apart within apart

/-- The canonical `name` is where the aliases of the `answer` section end. -/
theorem canonicalName?_eq_some_iff {message : Message} {question : Question}
    (asked : message.questions.head? = some question) : message.canonicalName? = some last ↔
      ∃ count, EndsAfter message.answer question.name count last := by
  obtain ⟨more, questions⟩ := List.head?_eq_some_iff.mp asked
  rw [canonicalName?, questions, followAliases_eq_some_iff]
  constructor
  · rintro ⟨count, -, way⟩
    exact ⟨count, way⟩
  · rintro ⟨count, way⟩
    exact ⟨count, Nat.lt_succ_of_le way.le_length, way⟩

/-- Without an end, every number of aliases leads to a `name`. -/
theorem exists_iterate? (endless : ∀ count last, ¬EndsAfter records name count last) (count : Nat) :
    ∃ last, iterate? (aliasOf? records) count name = some last := by
  induction count with
  | zero => exact ⟨name, rfl⟩
  | succ count ih =>
    obtain ⟨last, reaches⟩ := ih
    rw [iterate?_succ reaches]
    exact Option.ne_none_iff_exists'.mp fun ends => endless count last ⟨reaches, ends⟩

/-- The aliases go on without end if there is a `path` on which each name is an alias of the next
one. -/
theorem endless_iff : (∀ count last, ¬EndsAfter records name count last) ↔
    ∃ path : Nat → Name, path 0 = name ∧
      ∀ count, FirstAlias records (path count) (path (count + 1)) := by
  constructor
  · intro endless
    choose path reaches using exists_iterate? endless
    refine ⟨path, (Option.some.inj (reaches 0)).symm, fun count => ?_⟩
    rw [← aliasOf?_eq_some_iff, ← iterate?_succ (reaches count), reaches]
  · rintro ⟨path, rfl, leads⟩ count last way
    have along (count : Nat) :
        iterate? (aliasOf? records) count (path 0) = some (path count) := by
      induction count with
      | zero => rfl
      | succ count ih => rw [iterate?_succ ih, aliasOf?_eq_some_iff.mpr (leads count)]
    obtain rfl := Option.some.inj ((along count).symm.trans way.leads)
    exact Option.some_ne_none _ ((aliasOf?_eq_some_iff.mpr (leads count)).symm.trans way.ends)

/-- The name that `canonicalName?` gives is the one at which the aliases of the answer section end,
if each `FirstAlias` is followed from the name of the first `question` on. There is none exactly if
they never end. -/
theorem canonicalName_decides (message : Message) (question : Question)
    (asked : message.questions.head? = some question) :
    (∀ last, message.canonicalName? = some last ↔
      Relation.ReflTransGen (FirstAlias message.answer) question.name last ∧
        ∀ target, ¬FirstAlias message.answer last target) ∧
    (message.canonicalName? = none ↔
      ∃ path : Nat → Name, path 0 = question.name ∧
        ∀ count, FirstAlias message.answer (path count) (path (count + 1))) := by
  constructor
  · intro last
    rw [canonicalName?_eq_some_iff asked, exists_endsAfter_iff]
  · rw [← endless_iff, Option.eq_none_iff_forall_ne_some]
    simp only [ne_eq, canonicalName?_eq_some_iff asked, not_exists]
    exact forall_comm

/-- A response about `a.`, with an answer section out of order. -/
def crossed : Message where
  header := Header.empty.setResponse true
  questions := [.internet (.top 97) .a]
  answer :=
    [⟨.top 98, .internet, 300, .cname (.top 99)⟩,
      ⟨.top 120, .internet, 300, .a (.ofOctets 192 0 2 10)⟩,
      ⟨.top 65, .internet, 300, .cname (.top 66)⟩,
      ⟨.top 97, .internet, 300, .cname (.top 97)⟩]
  authority := []
  additional := []

/-- A response about `a.` with aliases in a circle. -/
def circle : Message :=
  { crossed with answer :=
    [⟨.top 98, .internet, 300, .cname (.top 65)⟩, ⟨.top 97, .internet, 300, .cname (.top 66)⟩] }

/-- The first of two aliases of `a.` leads over `B.` to `c.`, and those of a circle never end. -/
theorem canonicalName_decides_crossed :
    crossed.questions.head? = some (.internet (.top 97) .a) ∧
    (crossed.canonicalName? = some (.top 99) ∧
      Relation.ReflTransGen (FirstAlias crossed.answer) (.top 97) (.top 99)) ∧
    (circle.canonicalName? = none ∧ ∃ path : Nat → Name, path 0 = .top 97 ∧
      ∀ count, FirstAlias circle.answer (path count) (path (count + 1))) := by
  have found : crossed.canonicalName? = some (.top 99) := by decide
  have missing : circle.canonicalName? = none := by decide
  obtain ⟨reached, -⟩ := canonicalName_decides crossed (.internet (.top 97) .a) rfl
  obtain ⟨-, endless⟩ := canonicalName_decides circle (.internet (.top 97) .a) rfl
  exact ⟨rfl, ⟨found, ((reached _).mp found).1⟩, missing, endless.mp missing⟩

end Message

end NameResolution
