import NameResolution.Proofs.Codec.FlatNames

/-!
# The order of names

Names are compared in several ways. Equality and hashing go over the rows of octets, length octets
included, and ignore ASCII case. The order takes the labels from the root on. The canonical form
is a name in small letters. All of them agree about which names are the same. In the order, a zone
and the names below it stand together, and the zone comes first.

* `isLE_compare_of_prefix`, `prefix_of_between`: a list is followed by its extensions, with no gap.
* `FlatName.IsSame`, `FlatName.hashInput`, `FlatName.order`: comparing rows.
* `Name.flat_isSame`, `Name.flat_hashInput`, `Name.flat_order`: rows are compared like their names.
* `Name.isSubdomainOf_iff_prefix`: a zone is a prefix, from the root on, of what is below it.
* `Name.comparisons_agree`: equality, hashing, canonical form and order agree, and zones are
  intervals.
-/

namespace NameResolution

/-! ## Lexicographic order -/

section Lexicographic

variable {α : Type} [Ord α]

/-- The lists `left` and `right` are compared element by element, as far as both go. The first
difference decides, or else the shorter list comes first. -/
theorem compare_eq_foldr_zip (left right : List α) : compare left right =
    ((left.zip right).map fun pair => compare pair.1 pair.2).foldr Ordering.then
      (compare left.length right.length) := by
  induction left generalizing right with
  | nil => cases right <;> simp [Nat.compare_eq_ite_lt]
  | cons first left ih =>
    cases right with
    | nil => simp [Nat.compare_eq_ite_lt]
    | cons second right =>
      rw [List.compare_cons_cons, ih]
      simp [Nat.compare_eq_ite_lt]

variable [Std.LawfulEqOrd α]

/-- The list `zone` comes before its extensions. -/
theorem isLE_compare_of_prefix {zone list : List α} (inside : zone <+: list) :
    (compare zone list).isLE := by
  obtain ⟨rest, rfl⟩ := inside
  induction zone with
  | nil => exact List.isLE_compare_nil_left
  | cons first zone ih => simpa using ih

/-- What lies between the list `zone` and an extension of it extends `zone`, too. -/
theorem prefix_of_between [Std.TransOrd α] {zone list high : List α}
    (above : (compare zone list).isLE) (below : (compare list high).isLE)
    (inside : zone <+: high) : zone <+: list := by
  induction zone generalizing list high with
  | nil => exact List.nil_prefix
  | cons first zone ih =>
    obtain ⟨rest, rfl⟩ := inside
    cases list with
    | nil => simp at above
    | cons next list =>
      simp only [List.cons_append, List.compare_cons_cons, Ordering.isLE_then_iff_and]
        at above below
      -- The first elements lie between equal ones, so they do not decide.
      obtain rfl : first = next :=
        Std.LawfulEqOrd.eq_of_compare (Std.OrientedCmp.isLE_antisymm above.1 below.1)
      simp only [Std.ReflOrd.compare_self, reduceCtorEq, false_or] at above below
      exact (List.prefix_cons_inj first).mpr (ih above.2 below.2 (List.prefix_append zone rest))

end Lexicographic

/-! ## Comparing rows -/

namespace FlatName

/-- The rows of `name` and `other` are the same but for ASCII case, and so are the flags. -/
def IsSame (name other : FlatName) : Prop :=
  name.absolute = other.absolute ∧ SameOctets name.content other.content

/-- What of a `name` goes into a hash: the flag and all octets in small letters, the length octets
included. -/
def hashInput (name : FlatName) : Bool × List UInt8 :=
  (name.absolute, name.content.map foldOctet)

/-- Compares `labels` one by one, in small letters. The first difference decides, or else their
number. -/
def compareLabels (labels more : List (List UInt8)) : Ordering :=
  ((labels.zip more).map fun pair =>
    compare (pair.1.map foldOctet) (pair.2.map foldOctet)).foldr Ordering.then
      (compare labels.length more.length)

/-- Of `name` and `other`, relative names come first; otherwise the labels decide, from the root
on. -/
def order (name other : FlatName) : Except FlatFault Ordering :=
  match compare name.absolute other.absolute with
  | .eq => do
    let labels ← cut name.content
    let more ← cut other.content
    return compareLabels labels.reverse more.reverse
  | decided => .ok decided

theorem compareLabels_eq (labels more : List (List UInt8)) : compareLabels labels more =
    compare (labels.map (List.map foldOctet)) (more.map (List.map foldOctet)) := by
  rw [compare_eq_foldr_zip, compareLabels, List.zip_map, List.map_map, List.length_map,
    List.length_map]
  rfl

end FlatName

namespace Name

open FlatName

variable {a b zone : Name}

theorem flat_isSame : a.flat.IsSame b.flat ↔ (a == b) = true := by
  rw [IsSame, flat, flat, sameOctets_row, beq_iff_labels]

theorem flat_hashInput (name : Name) : name.flat.hashInput = name.hashInput := by
  rw [FlatName.hashInput, flat, map_foldOctet_row]
  rfl

theorem map_octets_fold (labels : List Label) : (labels.map Label.fold).map Label.octets =
    (labels.map Label.octets).map (List.map foldOctet) := by
  rw [List.map_map, List.map_map]
  rfl

theorem flat_order (a b : Name) : a.flat.order b.flat = .ok (compare a b) := by
  show _ = Except.ok ((compare a.absolute b.absolute).then (compare a.orderKey b.orderKey))
  simp only [order, flat, cut_row, orderKey, fold, map_octets_fold]
  cases compare a.absolute b.absolute with
  | lt => rfl
  | gt => rfl
  | eq =>
    show Except.ok (compareLabels _ _) = Except.ok (compare _ _)
    rw [compareLabels_eq, List.map_reverse, List.map_reverse]

/-! ## A total order -/

theorem orderKey_inj : a.orderKey = b.orderKey ↔ a.fold.labels = b.fold.labels := by
  rw [orderKey, orderKey, List.reverse_inj]
  exact List.map_inj_right fun _ _ => Label.eq_of_octets

instance : Std.TransOrd Name :=
  inferInstanceAs (Std.TransCmp (compareLex (compareOn absolute) (compareOn orderKey)))

instance : Std.LawfulBEqOrd Name where
  compare_eq_iff_beq {a b} := by
    show (compare a.absolute b.absolute).then (compare a.orderKey b.orderKey) = .eq ↔ _
    rw [Ordering.then_eq_eq, Std.compare_eq_iff_eq, Std.compare_eq_iff_eq, orderKey_inj,
      beq_iff_labels]
    rfl

/-! ## Hashing and the canonical form -/

theorem beq_iff_hashInput : (a == b) = true ↔ a.hashInput = b.hashInput := by
  rw [← flat_isSame, ← flat_hashInput, ← flat_hashInput, FlatName.hashInput, FlatName.hashInput,
    Prod.mk.injEq]
  rfl

theorem labelOctets_injective {labels more : List Label}
    (same : labelOctets labels = labelOctets more) : labels = more :=
  row_injective (List.append_cancel_right same)

/-- Absolute names have `canonicalOctets`, by which they are known but for ASCII case. -/
theorem beq_iff_canonicalOctets (absolute : a.absolute = true) (other : b.absolute = true) :
    ∃ own more, a.canonicalOctets = .ok own ∧ b.canonicalOctets = .ok more ∧
      ((a == b) = true ↔ own = more) := by
  refine ⟨_, _, if_pos absolute, if_pos other, ?_⟩
  rw [beq_iff_labels, absolute, other]
  constructor
  · rintro ⟨-, same⟩
    exact congrArg (fun labels => (labelOctets labels).toArray) same
  · intro same
    exact ⟨rfl, labelOctets_injective (List.toArray_inj same)⟩

/-! ## Zones -/

/-- A `zone` is a prefix of what is equal to it or below it, if labels are taken from the root
on. -/
theorem isSubdomainOf_iff_prefix : a.IsSubdomainOf zone ↔
    a.absolute = zone.absolute ∧ zone.orderKey <+: a.orderKey := by
  rw [IsSubdomainOf, orderKey, orderKey, List.reverse_prefix]
  refine and_congr_right fun _ => ⟨fun last => last.map Label.octets, fun last => ?_⟩
  obtain ⟨labels, suffix, same⟩ := List.suffix_map_iff.mp last
  rwa [(List.map_inj_right fun _ _ => Label.eq_of_octets).mp same]

/-- A `zone` comes before all that is below it. -/
theorem IsSubdomainOf.isLE (inside : a.IsSubdomainOf zone) : (compare zone a).isLE := by
  obtain ⟨absolute, keys⟩ := isSubdomainOf_iff_prefix.mp inside
  show ((compare zone.absolute a.absolute).then (compare zone.orderKey a.orderKey)).isLE
  rw [absolute, Std.ReflOrd.compare_self]
  exact isLE_compare_of_prefix keys

/-- What lies between a `zone` and a name below it is below the zone, too. -/
theorem IsSubdomainOf.between (inside : b.IsSubdomainOf zone) (above : (compare zone a).isLE)
    (below : (compare a b).isLE) : a.IsSubdomainOf zone := by
  obtain ⟨absolute, keys⟩ := isSubdomainOf_iff_prefix.mp inside
  change ((compare zone.absolute a.absolute).then (compare zone.orderKey a.orderKey)).isLE at above
  change ((compare a.absolute b.absolute).then (compare a.orderKey b.orderKey)).isLE at below
  rw [Ordering.isLE_then_iff_and] at above below
  rw [absolute] at below
  have same : zone.absolute = a.absolute :=
    Std.LawfulEqOrd.eq_of_compare (Std.OrientedCmp.isLE_antisymm above.1 below.1)
  simp only [same, Std.ReflOrd.compare_self, reduceCtorEq, false_or] at above below
  exact isSubdomainOf_iff_prefix.mpr ⟨same.symm, prefix_of_between above.2 below.2 keys⟩

/-- The ways to compare names agree, and so do those to compare their rows (`flat`). The order,
`compare`, is total. It takes `a` and `b` as equal if `==` does, that is if both or none are
absolute and their labels are the same but for ASCII case. This is so exactly if the same
`hashInput` goes into a hash, and for absolute names exactly if their `canonicalOctets` are the
same. The names equal to `a` or below it come together, and none of them comes before `a`. -/
theorem comparisons_agree (a b c : Name) :
    (compare b a = (compare a b).swap ∧
      ((compare a b).isLE → (compare b c).isLE → (compare a c).isLE)) ∧
    (compare a b = .eq ↔ (a == b) = true) ∧
    ((a == b) = true ↔
      a.absolute = b.absolute ∧ a.labels.map Label.fold = b.labels.map Label.fold) ∧
    ((a == b) = true ↔ a.hashInput = b.hashInput) ∧
    (a.absolute = true → b.absolute = true → ∃ own more, a.canonicalOctets = .ok own ∧
      b.canonicalOctets = .ok more ∧ ((a == b) = true ↔ own = more)) ∧
    (b.IsSubdomainOf a → (compare a b).isLE) ∧
    ((compare a b).isLE → (compare b c).isLE → c.IsSubdomainOf a → b.IsSubdomainOf a) ∧
    (a.flat.order b.flat = .ok (compare a b) ∧ (a.flat.IsSame b.flat ↔ (a == b) = true) ∧
      a.flat.hashInput = a.hashInput) := by
  refine ⟨⟨Std.OrientedOrd.eq_swap, Std.TransOrd.isLE_trans⟩, Std.compare_eq_iff_beq,
    beq_iff_labels, beq_iff_hashInput, beq_iff_canonicalOctets, IsSubdomainOf.isLE, ?_,
    flat_order a b, flat_isSame, flat_hashInput a⟩
  intro above below inside
  exact inside.between above below

/-- `A.e.` lies between `e.` and `*.z.e.`, and so it is below `e.` -/
theorem comparisons_agree_between :
    (compare (top 101) (spelled [65, 101])).isLE ∧
    (compare (spelled [65, 101]) (spelled [42, 122, 101])).isLE ∧
    (spelled [42, 122, 101]).IsSubdomainOf (top 101) ∧
    (spelled [65, 101]).IsSubdomainOf (top 101) ∧
    (spelled [65, 101] == spelled [97, 69]) = true ∧
    (spelled [65, 101]).hashInput = (spelled [97, 69]).hashInput := by
  have above : (compare (top 101) (spelled [65, 101])).isLE := by decide
  have below : (compare (spelled [65, 101]) (spelled [42, 122, 101])).isLE := by decide
  have inside : (spelled [42, 122, 101]).IsSubdomainOf (top 101) := by decide
  have same : (spelled [65, 101] == spelled [97, 69]) = true := by decide
  obtain ⟨-, -, -, -, -, -, zones, -⟩ :=
    comparisons_agree (top 101) (spelled [65, 101]) (spelled [42, 122, 101])
  obtain ⟨-, -, -, hashes, -⟩ := comparisons_agree (spelled [65, 101]) (spelled [97, 69]) root
  exact ⟨above, below, inside, zones above below inside, same, hashes.mp same⟩

end Name

end NameResolution
