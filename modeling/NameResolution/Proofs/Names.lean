import NameResolution.Name.Basic

/-!
# Laws of names

Names that differ in ASCII case only are the same name. All that is said here of names and their
ancestors holds regardless of case.

* `Name.IsBelow`: being a proper descendant of another name.
* `Name.length_labels_le`: a name has at most 127 labels.
* `Name.exists_suffix`: a name around another one occurs among the suffixes of this one.
-/

namespace NameResolution

namespace Name

/-! ## Comparing names -/

@[simp] theorem beq_self (name : Name) : (name == name) = true := beq_iff.mpr rfl

theorem beq_comm {name other : Name} : (name == other) = true ↔ (other == name) = true := by
  rw [beq_iff, beq_iff, eq_comm]

theorem absolute_congr {name other : Name} (same : name.fold = other.fold) :
    name.absolute = other.absolute := by
  rw [← absolute_fold, same, absolute_fold]

theorem eq_of_labels {name other : Name} (labels : name.labels = other.labels)
    (absolute : name.absolute = other.absolute) : name = other := by
  cases name
  cases other
  simp_all

theorem beq_iff_labels {name other : Name} : (name == other) = true ↔
    name.absolute = other.absolute ∧
      name.labels.map Label.fold = other.labels.map Label.fold := by
  rw [beq_iff, fold, fold, mk.injEq, and_comm]

/-- Each `Label` takes at least two octets. -/
theorem two_mul_length_le (labels : List Label) : 2 * labels.length ≤ wireSize labels := by
  induction labels with
  | nil => exact Nat.le_refl _
  | cons label labels ih =>
    have := label.nonempty
    simp only [List.length_cons, wireSize_cons, Label.length]
    omega

/-- A `name` has at most 127 `labels`, because each takes at least two octets. -/
theorem length_labels_le (name : Name) : name.labels.length ≤ 127 := by
  have := two_mul_length_le name.labels
  have := name.fits
  omega

/-! ## Names below others -/

/-- The `name` lies below the other one and is not the same. -/
def IsBelow (name other : Name) : Prop := name.IsSubdomainOf other ∧ ¬(name == other)

theorem IsBelow.length_lt {name other : Name} (below : name.IsBelow other) :
    other.labels.length < name.labels.length := by
  obtain ⟨⟨absolute, suffix⟩, different⟩ := below
  have le := suffix.length_le
  simp only [fold, List.length_map] at le
  refine Nat.lt_of_le_of_ne le fun same => different (beq_iff.mpr ?_)
  have labels := suffix.eq_of_length (by simpa [fold] using same)
  unfold fold at labels ⊢
  simp only at labels
  simp [labels, absolute]

theorem IsSubdomainOf.congr {name other zone : Name} (same : (name == other) = true)
    (inside : name.IsSubdomainOf zone) : other.IsSubdomainOf zone := by
  have folds := beq_iff.mp same
  obtain ⟨absolute, suffix⟩ := inside
  refine ⟨?_, folds ▸ suffix⟩
  rw [← absolute_fold, ← folds, absolute_fold, absolute]

theorem IsSubdomainOf.congr_zone {name zone other : Name} (same : zone.fold = other.fold)
    (inside : name.IsSubdomainOf zone) : name.IsSubdomainOf other :=
  ⟨inside.1.trans (absolute_congr same), same ▸ inside.2⟩

theorem IsBelow.congr_zone {name zone other : Name} (same : zone.fold = other.fold)
    (below : name.IsBelow zone) : name.IsBelow other := by
  refine ⟨below.1.congr_zone same, fun equal => below.2 (beq_iff.mpr ?_)⟩
  rw [beq_iff.mp equal, same]

/-! ## Suffixes -/

theorem mem_suffixesOf {absolute : Bool} {labels : List Label} {fits : wireSize labels ≤ 254}
    {name : Name} : name ∈ suffixesOf absolute labels fits ↔
      name.absolute = absolute ∧ name.labels <:+ labels := by
  induction labels with
  | nil =>
    obtain ⟨own, isAbsolute, size⟩ := name
    simp [suffixesOf, and_comm]
  | cons label labels ih =>
    obtain ⟨own, isAbsolute, size⟩ := name
    rw [suffixesOf, List.mem_cons, ih, List.suffix_cons_iff, mk.injEq, and_or_left]
    exact or_congr_left and_comm

/-- The `suffixes` of a `name` are those names whose `labels` are the last ones of it. -/
theorem mem_suffixes {name suffix : Name} : suffix ∈ name.suffixes ↔
    suffix.absolute = name.absolute ∧ suffix.labels <:+ name.labels := mem_suffixesOf

/-- The `suffixes` of a `name` become shorter and shorter. -/
theorem pairwise_suffixes (name : Name) :
    name.suffixes.Pairwise fun longer shorter => shorter.labels.length < longer.labels.length := by
  have ofLabels (labels : List Label) (fits : wireSize labels ≤ 254) :
      (suffixesOf name.absolute labels fits).Pairwise fun longer shorter =>
        shorter.labels.length < longer.labels.length := by
    induction labels with
    | nil => exact List.pairwise_singleton _ _
    | cons label labels ih =>
      refine List.pairwise_cons.mpr ⟨fun shorter member => ?_, ih _⟩
      exact Nat.lt_succ_of_le (mem_suffixesOf.mp member).2.length_le
  exact ofLabels name.labels name.fits

/-- No suffix of a `name` occurs twice. -/
theorem nodup_suffixes (name : Name) : name.suffixes.Nodup := by
  refine name.pairwise_suffixes.imp fun {longer shorter} lengths same => ?_
  exact Nat.lt_irrefl _ (same ▸ lengths)

/-- A `suffix` of a `name` is known by its `length`. -/
theorem eq_of_mem_suffixes {name suffix other : Name} (member : suffix ∈ name.suffixes)
    (among : other ∈ name.suffixes) (same : suffix.labels.length = other.labels.length) :
    suffix = other := by
  obtain ⟨absolute, last⟩ := mem_suffixes.mp member
  obtain ⟨isAbsolute, further⟩ := mem_suffixes.mp among
  have inner := List.suffix_of_suffix_length_le last further (Nat.le_of_eq same)
  have labels := inner.eq_of_length same
  cases suffix
  cases other
  cases labels
  cases absolute.trans isAbsolute.symm
  rfl

/-- A `name` lies at or below its `suffixes`. -/
theorem isSubdomainOf_of_mem_suffixes {name suffix : Name} (member : suffix ∈ name.suffixes) :
    name.IsSubdomainOf suffix := by
  obtain ⟨absolute, last⟩ := mem_suffixes.mp member
  exact ⟨absolute.symm, last.map Label.fold⟩

/-- A `name` around another one occurs among the `suffixes` of this one. -/
theorem exists_suffix {name zone : Name} (inside : name.IsSubdomainOf zone) :
    ∃ suffix ∈ name.suffixes, suffix.fold = zone.fold := by
  obtain ⟨absolute, suffix⟩ := inside
  obtain ⟨labels, last, folds⟩ := List.suffix_map_iff.mp suffix
  have fits : wireSize labels ≤ 254 := by
    obtain ⟨front, append⟩ := last
    have size := name.fits
    rw [← append, wireSize_append] at size
    omega
  exact ⟨⟨labels, name.absolute, fits⟩, mem_suffixes.mpr ⟨rfl, last⟩,
    eq_of_labels folds.symm absolute⟩

/-! ## Short names -/

/-- The name of a top level zone with a label of one `octet`. -/
def top (octet : UInt8) : Name := ⟨[⟨[octet], by simp, by simp⟩], true, by simp [Label.length]⟩

/-- The `Label` with one `octet`. -/
def single (octet : UInt8) : Label := ⟨[octet], by simp, by simp⟩

theorem wireSize_single (octets : List UInt8) :
    wireSize (octets.map single) = 2 * octets.length := by
  induction octets with
  | nil => rfl
  | cons octet octets ih =>
    simp only [List.map_cons, wireSize_cons, ih, single, Label.length, List.length_cons,
      List.length_nil]
    omega

/-- The absolute name with one of the `octets` in each label, of which it takes no more than fit. -/
def spelled (octets : List UInt8) : Name :=
  ⟨(octets.take 127).map single, true, by rw [wireSize_single, List.length_take]; omega⟩

end Name

end NameResolution
