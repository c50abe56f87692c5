import NameResolution.Proofs.Codec.FlatNames

/-!
# Ancestors and rewriting

A name is cut at an ancestor, and the ancestor is replaced by another name. What is in front of the
ancestor stays, so the replacement can be taken back. ASCII case makes no difference to any of this.

* `Name.IsSubdomainOf.refl`, `.antisymm`, `.trans`: being equal or below is a partial order.
* `Name.labelsAbove`: the labels that a name has in front of an ancestor.
* `Name.fold_suffixes`, `Name.fold_relativize`, `Name.fold_append?`, `Name.fold_rewrite?`: the
  operations on names in small letters.
* `Name.rewrite?_eq_none_iff`, `Name.rewrite?_eq_error_iff`, `Name.rewrite?_eq_some_iff`: which names
  are rewritten, and to what.
* `Name.rewriting_laws`: the test for ancestors, cutting, appending and rewriting fit together.
-/

namespace NameResolution

namespace Name

variable {name other zone origin owner target : Name}

/-! ## A partial order -/

theorem IsSubdomainOf.refl (name : Name) : name.IsSubdomainOf name :=
  ⟨rfl, List.suffix_refl _⟩

theorem IsSubdomainOf.antisymm (inside : name.IsSubdomainOf other)
    (outside : other.IsSubdomainOf name) : (name == other) = true := by
  have labels := outside.2.eq_of_length (Nat.le_antisymm outside.2.length_le inside.2.length_le)
  exact beq_iff.mpr (eq_of_labels labels inside.1)

theorem IsSubdomainOf.trans (inside : name.IsSubdomainOf other)
    (around : other.IsSubdomainOf zone) : name.IsSubdomainOf zone :=
  ⟨inside.1.trans around.1, around.2.trans inside.2⟩

/-- A `name` is equal to another one or below it if the other one is among its `suffixes`, but for
ASCII case. -/
theorem isSubdomainOf_iff_suffix : name.IsSubdomainOf other ↔
    ∃ suffix ∈ name.suffixes, (suffix == other) = true := by
  constructor
  · intro inside
    obtain ⟨suffix, member, same⟩ := exists_suffix inside
    exact ⟨suffix, member, beq_iff.mpr same⟩
  · rintro ⟨suffix, member, same⟩
    exact (isSubdomainOf_of_mem_suffixes member).congr_zone (beq_iff.mp same)

/-! ## The labels above an ancestor -/

/-- The labels that the name has in front of as many labels as `origin` has. -/
def labelsAbove (name origin : Name) : List Label :=
  name.labels.take (name.labels.length - origin.labels.length)

theorem labelsAbove_eq {front rest : List Label} (whole : name.labels = front ++ rest)
    (same : rest.length = origin.labels.length) : name.labelsAbove origin = front := by
  rw [labelsAbove, whole, List.length_append, same, Nat.add_sub_cancel, List.take_left]

/-- A `name` below another one has the `labels` of this one, but for ASCII case, behind those
above. -/
theorem IsSubdomainOf.exists_rest (inside : name.IsSubdomainOf origin) :
    ∃ rest, name.labels = name.labelsAbove origin ++ rest ∧
      rest.map Label.fold = origin.labels.map Label.fold := by
  obtain ⟨front, rest, whole, same⟩ := inside.exists_split
  have lengths : rest.length = origin.labels.length := by
    simpa using congrArg List.length same
  rw [labelsAbove_eq whole lengths]
  exact ⟨rest, whole, same⟩

theorem IsBelow.labelsAbove_ne_nil (below : name.IsBelow origin) :
    name.labelsAbove origin ≠ [] := by
  have := below.length_lt
  rw [labelsAbove, ne_eq, List.take_eq_nil_iff, ← List.length_eq_zero_iff]
  omega

/-- With `labels` in front, a `name` is strictly below what it was. -/
theorem isBelow_of_labels {front : List Label} (labels : name.labels = front ++ origin.labels)
    (absolute : name.absolute = origin.absolute) (more : front ≠ []) : name.IsBelow origin := by
  have suffix : origin.labels <:+ name.labels := ⟨front, labels.symm⟩
  refine ⟨⟨absolute, suffix.map Label.fold⟩, fun same => more ?_⟩
  have lengths := congrArg (List.length ∘ Name.labels) (beq_iff.mp same)
  simpa [fold, labels] using lengths

/-- The `labels` above an ancestor, followed by those of the ancestor, are those of the `name`
again, but for ASCII case. -/
theorem IsSubdomainOf.fold_eq (inside : name.IsSubdomainOf origin)
    (labels : other.labels = name.labelsAbove origin ++ origin.labels)
    (absolute : other.absolute = origin.absolute) : (other == name) = true := by
  obtain ⟨rest, whole, same⟩ := inside.exists_rest
  refine beq_iff.mpr (Name.fold_eq (absolute.trans inside.1.symm) ?_)
  rw [labels, List.map_append, ← same, ← List.map_append, ← whole]

theorem IsSubdomainOf.wireSize_eq (inside : name.IsSubdomainOf origin) :
    wireSize (name.labelsAbove origin ++ origin.labels) = wireSize name.labels := by
  obtain ⟨rest, whole, same⟩ := inside.exists_rest
  conv => rhs; rw [whole]
  rw [wireSize_append, wireSize_append, wireSize_eq_of_fold same]

/-! ## Cutting and appending -/

/-- What `relativize` has cut off at an `origin` can be put in front of it again. -/
theorem IsSubdomainOf.append?_relativize (inside : name.IsSubdomainOf origin) :
    ∃ whole, (name.relativize origin).append? origin = .ok whole ∧ (whole == name) = true := by
  have fits : wireSize (name.labelsAbove origin ++ origin.labels) ≤ 254 :=
    inside.wireSize_eq ▸ name.fits
  rw [relativize, if_pos inside, append?, if_neg Bool.false_ne_true]
  exact ⟨_, dif_pos fits, inside.fold_eq rfl rfl⟩

/-! ## Rewriting -/

theorem rewrite?_of_not_isBelow (outside : ¬name.IsBelow owner) :
    name.rewrite? owner target = .ok none := if_neg outside

/-- A name strictly below `owner` is rewritten unless there is no room for the result. -/
theorem rewrite?_of_isBelow (below : name.IsBelow owner) : name.rewrite? owner target =
    if fits : wireSize (name.labelsAbove owner ++ target.labels) ≤ 254 then
      .ok (some ⟨name.labelsAbove owner ++ target.labels, target.absolute, fits⟩)
    else .error .longName := by
  have both : name.IsSubdomainOf owner ∧ ¬(name == owner) = true := below
  rw [rewrite?, if_pos both, relativize, if_pos below.1, append?, if_neg Bool.false_ne_true]
  by_cases fits : wireSize (name.labelsAbove owner ++ target.labels) ≤ 254
  · rw [dif_pos fits]
    exact congrArg (Except.map some) (dif_pos fits)
  · rw [dif_neg fits]
    exact congrArg (Except.map some) (dif_neg fits)

theorem rewrite?_eq_none_iff : name.rewrite? owner target = .ok none ↔ ¬name.IsBelow owner := by
  refine ⟨fun kept below => ?_, rewrite?_of_not_isBelow⟩
  rw [rewrite?_of_isBelow below] at kept
  split at kept <;> cases kept

theorem rewrite?_eq_error_iff {error : NameError} : name.rewrite? owner target = .error error ↔
    error = .longName ∧ name.IsBelow owner ∧
      254 < wireSize (name.labelsAbove owner ++ target.labels) := by
  by_cases below : name.IsBelow owner
  · rw [rewrite?_of_isBelow below]
    by_cases fits : wireSize (name.labelsAbove owner ++ target.labels) ≤ 254
    · simp only [dif_pos fits, reduceCtorEq, Nat.not_lt.mpr fits, and_false]
    · simp only [dif_neg fits, below, Nat.not_le.mp fits, and_true, Except.error.injEq, eq_comm]
  · simp [rewrite?_of_not_isBelow below, below]

theorem rewrite?_eq_some_iff {result : Name} : name.rewrite? owner target = .ok (some result) ↔
    name.IsBelow owner ∧ result.labels = name.labelsAbove owner ++ target.labels ∧
      result.absolute = target.absolute := by
  constructor
  · intro rewritten
    by_cases below : name.IsBelow owner
    · rw [rewrite?_of_isBelow below] at rewritten
      split at rewritten
      · obtain rfl := Option.some.inj (Except.ok.inj rewritten)
        exact ⟨below, rfl, rfl⟩
      · cases rewritten
    · rw [rewrite?_of_not_isBelow below] at rewritten
      cases rewritten
  · rintro ⟨below, labels, absolute⟩
    rw [rewrite?_of_isBelow below, dif_pos (labels ▸ result.fits)]
    exact congrArg (Except.ok ∘ some) (eq_of_labels labels.symm absolute.symm)

/-- What a `name` is rewritten to is strictly below the `target`, and is rewritten back. -/
theorem IsBelow.rewrite?_back {result : Name} (below : name.IsBelow owner)
    (labels : result.labels = name.labelsAbove owner ++ target.labels)
    (absolute : result.absolute = target.absolute) : result.IsBelow target ∧
      ∃ back, result.rewrite? target owner = .ok (some back) ∧ (back == name) = true := by
  have inside := isBelow_of_labels labels absolute below.labelsAbove_ne_nil
  have front : result.labelsAbove target = name.labelsAbove owner := labelsAbove_eq labels rfl
  have fits : wireSize (result.labelsAbove target ++ owner.labels) ≤ 254 := by
    rw [front, below.1.wireSize_eq]
    exact name.fits
  exact ⟨inside, _, (rewrite?_of_isBelow inside).trans (dif_pos fits),
    below.1.fold_eq (congrArg (· ++ owner.labels) front) rfl⟩

/-! ## Small letters -/

@[simp] theorem fold_isSubdomainOf : name.fold.IsSubdomainOf other.fold ↔
    name.IsSubdomainOf other := by
  rw [IsSubdomainOf, fold_fold, fold_fold]
  rfl

@[simp] theorem fold_isBelow : name.fold.IsBelow other.fold ↔ name.IsBelow other := by
  rw [IsBelow, fold_isSubdomainOf, beq_iff, fold_fold, fold_fold, ← beq_iff]
  rfl

theorem fold_suffixes (name : Name) : name.fold.suffixes = name.suffixes.map fold := by
  obtain ⟨labels, absolute, fits⟩ := name
  induction labels with
  | nil => rfl
  | cons label labels ih => exact congrArg (List.cons _) (ih (fits_tail fits))

theorem fold_relativize (name origin : Name) :
    name.fold.relativize origin.fold = (name.relativize origin).fold := by
  by_cases inside : name.IsSubdomainOf origin
  · simp only [relativize, fold_isSubdomainOf, if_pos inside]
    simp [fold, List.map_take]
  · simp only [relativize, fold_isSubdomainOf, if_neg inside]

theorem fold_append? (name suffix : Name) :
    name.fold.append? suffix.fold = (name.append? suffix).map fold := by
  have size : wireSize (name.fold.labels ++ suffix.fold.labels) =
      wireSize (name.labels ++ suffix.labels) := by simp [fold]
  by_cases absolute : name.absolute = true
  · rw [append?, append?, if_pos absolute, if_pos (by exact absolute)]
    rfl
  · rw [append?, append?, if_neg absolute, if_neg (by exact absolute)]
    by_cases fits : wireSize (name.labels ++ suffix.labels) ≤ 254
    · rw [dif_pos fits, dif_pos (size ▸ fits)]
      exact congrArg Except.ok (eq_of_labels (by simp [fold]) rfl)
    · rw [dif_neg fits, dif_neg (size ▸ fits)]
      rfl

theorem fold_rewrite? (name owner target : Name) :
    name.fold.rewrite? owner.fold target.fold =
      (name.rewrite? owner target).map (Option.map fold) := by
  by_cases below : name.IsBelow owner
  · have both : name.IsSubdomainOf owner ∧ ¬(name == owner) = true := below
    have folded : name.fold.IsSubdomainOf owner.fold ∧ ¬(name.fold == owner.fold) = true :=
      fold_isBelow.mpr below
    rw [rewrite?, rewrite?, if_pos both, if_pos folded, fold_relativize, fold_append?]
    cases (name.relativize owner).append? target <;> rfl
  · rw [rewrite?_of_not_isBelow below, rewrite?_of_not_isBelow (mt fold_isBelow.mp below)]
    rfl

/-- ASCII case makes no difference to what is below a `name` and to what names are cut, put together
and rewritten to. -/
theorem rewriting_congr {name' origin' : Name} (same : name.fold = name'.fold)
    (around : origin.fold = origin'.fold) (target : Name) :
    (name.IsSubdomainOf origin ↔ name'.IsSubdomainOf origin') ∧
    (name.IsBelow origin ↔ name'.IsBelow origin') ∧
    name.suffixes.map fold = name'.suffixes.map fold ∧
    (name.relativize origin).fold = (name'.relativize origin').fold ∧
    ((name.relativize origin).append? origin).map fold =
      ((name'.relativize origin').append? origin').map fold ∧
    (name.rewrite? origin target).map (Option.map fold) =
      (name'.rewrite? origin' target).map (Option.map fold) := by
  refine ⟨?_, ?_, ?_, ?_, ?_, ?_⟩
  · rw [← fold_isSubdomainOf, same, around, fold_isSubdomainOf]
  · rw [← fold_isBelow, same, around, fold_isBelow]
  · rw [← fold_suffixes, same, fold_suffixes]
  · rw [← fold_relativize, same, around, fold_relativize]
  · rw [← fold_append?, ← fold_relativize, same, around, fold_relativize, fold_append?]
  · rw [← fold_rewrite?, same, around, fold_rewrite?]

/-- The test for ancestors, cutting, appending and rewriting fit together. The name `n` is equal to
`o` or below it (`IsSubdomainOf`) if one of the `suffixes` of `n` is `o`, and the test on rows of
octets finds this out; this is a partial order. What `n` has above `o`, followed by `o`, is `n`. To
`rewrite?` `o` to `t` leaves out the names that are not strictly below `o`, fails for those that
become too long, and otherwise leads to a name strictly below `t` from which it can be taken back.
ASCII case makes no difference. -/
theorem rewriting_laws (n o t : Name) :
    ((n.IsSubdomainOf o ↔ ∃ suffix ∈ n.suffixes, (suffix == o) = true) ∧
      n.flat.isSubdomainOf o.flat = .ok (decide (n.IsSubdomainOf o))) ∧
    (n.IsSubdomainOf n ∧ (n.IsSubdomainOf o → o.IsSubdomainOf n → (n == o) = true) ∧
      (n.IsSubdomainOf o → o.IsSubdomainOf t → n.IsSubdomainOf t)) ∧
    (n.IsSubdomainOf o →
      (∃ rest, n.labels = n.labelsAbove o ++ rest ∧
        rest.map Label.fold = o.labels.map Label.fold) ∧
      ∃ whole, (n.relativize o).append? o = .ok whole ∧ (whole == n) = true) ∧
    (n.rewrite? o t = .ok none ↔ ¬n.IsBelow o) ∧
    (∀ error, n.rewrite? o t = .error error ↔ error = .longName ∧ n.IsBelow o ∧
      255 < wireSize (n.labelsAbove o ++ t.labels) + 1) ∧
    (n.IsBelow o → wireSize (n.labelsAbove o ++ t.labels) + 1 ≤ 255 →
      ∃ result, n.rewrite? o t = .ok (some result) ∧
        result.labels = n.labelsAbove o ++ t.labels ∧ result.absolute = t.absolute ∧
        result.IsBelow t ∧
        ∃ back, result.rewrite? t o = .ok (some back) ∧ (back == n) = true) ∧
    ∀ n' o', (n == n') = true → (o == o') = true →
      (n.IsSubdomainOf o ↔ n'.IsSubdomainOf o') ∧
      (n.IsBelow o ↔ n'.IsBelow o') ∧
      n.suffixes.map fold = n'.suffixes.map fold ∧
      (n.relativize o).fold = (n'.relativize o').fold ∧
      ((n.relativize o).append? o).map fold = ((n'.relativize o').append? o').map fold ∧
      (n.rewrite? o t).map (Option.map fold) = (n'.rewrite? o' t).map (Option.map fold) := by
  refine ⟨⟨isSubdomainOf_iff_suffix, flat_isSubdomainOf n o⟩,
    ⟨.refl n, IsSubdomainOf.antisymm, IsSubdomainOf.trans⟩,
    fun inside => ⟨inside.exists_rest, inside.append?_relativize⟩, rewrite?_eq_none_iff, ?_, ?_, ?_⟩
  · intro error
    rw [rewrite?_eq_error_iff, Nat.lt_succ_iff, Nat.succ_le_iff]
  · intro below short
    have fits : wireSize (n.labelsAbove o ++ t.labels) ≤ 254 := Nat.le_of_succ_le_succ short
    exact ⟨_, (rewrite?_of_isBelow below).trans (dif_pos fits), rfl, rfl,
      below.rewrite?_back rfl rfl⟩
  · intro n' o' same around
    exact rewriting_congr (beq_iff.mp same) (beq_iff.mp around) t

/-- The name whose only label ends in the octets of `b.` in a message. -/
def mimic : Name := ⟨[⟨[97, 1, 98], by simp, by simp⟩], true, by simp [Label.length]⟩

/-- `a.B.` is rewritten from `b.` to `c.d.` and back. A label that ends in the octets of `b.` does
not make a name below `b.` -/
theorem rewriting_laws_moved :
    (spelled [97, 66]).IsBelow (top 98) ∧
    (∃ result, (spelled [97, 66]).rewrite? (top 98) (spelled [99, 100]) = .ok (some result) ∧
      result.labels = (spelled [97, 99, 100]).labels ∧
      ∃ back, result.rewrite? (spelled [99, 100]) (top 98) = .ok (some back) ∧
        (back == spelled [97, 66]) = true) ∧
    (FlatName.SameOctets (mimic.flat.content.drop 2) (top 98).flat.content ∧
      ¬∃ suffix ∈ mimic.suffixes, (suffix == top 98) = true) := by
  have below : (spelled [97, 66]).IsBelow (top 98) := ⟨by decide, by decide⟩
  obtain ⟨-, -, -, -, -, moves, -⟩ := rewriting_laws (spelled [97, 66]) (top 98) (spelled [99, 100])
  obtain ⟨result, rewritten, labels, -, -, back⟩ := moves below (by decide)
  obtain ⟨⟨suffixes, -⟩, -⟩ := rewriting_laws mimic (top 98) root
  refine ⟨below, ⟨result, rewritten, labels, back⟩, by decide, ?_⟩
  exact mt suffixes.mpr (by decide)

end Name

end NameResolution
