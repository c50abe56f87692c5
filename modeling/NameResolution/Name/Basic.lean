import NameResolution.Label

/-!
# Domain names

A `Name` is a list of labels, the most specific first, and whether it ends in the root. Its size
is kept within the limit that leaves room for the root label, so every name can be made absolute.
Names are compared without regard to ASCII case: `==` is equality of folded names, and the order
is by absoluteness first and then label by label from the root.

* `Name.suffixes`: a name with all its ancestors, up to the root or the empty name.
* `Name.IsSubdomainOf`: being equal to or below another name.
* `Name.relativize`, `Name.append?`, `Name.rewrite?`: cutting a name at an ancestor, appending
  names, and replacing an ancestor by another name.
-/

namespace NameResolution

/-- A domain name: its labels without the root, and whether the root follows them. -/
structure Name where
  labels : List Label
  absolute : Bool
  fits : wireSize labels ≤ 254
  deriving DecidableEq

namespace Name

/-- The `root`: the absolute name without labels. -/
def root : Name := ⟨[], true, by simp⟩

/-- The relative `Name` without labels. -/
def empty : Name := ⟨[], false, by simp⟩

/-- The labels of `parts` if each is a proper label and all fit into `room` octets. -/
def labelsOf? : (room : Nat) → List (List UInt8) →
    Except NameError { labels : List Label // wireSize labels ≤ room }
  | room, [] => .ok ⟨[], by simp⟩
  | room, part :: parts => do
    let label ← Label.ofOctets? part
    if fits : label.length + 1 ≤ room then
      let ⟨labels, rest⟩ ← labelsOf? (room - (label.length + 1)) parts
      return ⟨label :: labels, by simp only [wireSize_cons]; omega⟩
    else
      throw .longName

/-- The name made of the labels `parts`. -/
def ofLabels? (parts : List (List UInt8)) (absolute : Bool) : Except NameError Name := do
  let ⟨labels, fits⟩ ← labelsOf? 254 parts
  return ⟨labels, absolute, fits⟩

/-! ## Properties -/

/-- Whether the `name` is the root. -/
def isRoot (name : Name) : Bool := name.absolute && name.labels.isEmpty

/-- How many octets the `name` takes uncompressed. -/
def wireLength (name : Name) : Nat := wireSize name.labels + if name.absolute then 1 else 0

/-- How many `labels` the `name` has, the root included. -/
def labelCount (name : Name) : Nat := name.labels.length + if name.absolute then 1 else 0

/-- The name without its first label; the root and the empty name have none. -/
def parent? : Name → Option Name
  | ⟨[], _, _⟩ => none
  | ⟨_ :: labels, absolute, fits⟩ => some ⟨labels, absolute, fits_tail fits⟩

/-- The names made of `labels` and of what is left after dropping labels from the front. -/
def suffixesOf (absolute : Bool) : (labels : List Label) → wireSize labels ≤ 254 → List Name
  | [], fits => [⟨[], absolute, fits⟩]
  | label :: labels, fits =>
    ⟨label :: labels, absolute, fits⟩ :: suffixesOf absolute labels (fits_tail fits)

/-- The `name` and its ancestors, the nearest first. -/
def suffixes (name : Name) : List Name := suffixesOf name.absolute name.labels name.fits

/-! ## Comparison -/

/-- The `name` in small letters. -/
def fold (name : Name) : Name :=
  ⟨name.labels.map Label.fold, name.absolute, by simpa using name.fits⟩

@[simp] theorem fold_fold (name : Name) : name.fold.fold = name.fold := by
  simp [fold, Function.comp_def]

@[simp] theorem absolute_fold (name : Name) : name.fold.absolute = name.absolute := rfl

/-- Names are equal if they differ at most in ASCII case, so that `fold` makes them the same. -/
instance : BEq Name := ⟨fun a b => decide (a.fold = b.fold)⟩

theorem beq_iff {a b : Name} : (a == b) = true ↔ a.fold = b.fold := by
  simp [BEq.beq]

/-- What goes into a hash of the `name`: whether it is absolute, and the folded labels behind their
lengths. -/
def hashInput (name : Name) : Bool × List UInt8 :=
  (name.absolute, name.fold.labels.flatMap fun label => UInt8.ofNat label.length :: label.octets)

/-- The folded labels from the root on, which decide the order. -/
def orderKey (name : Name) : List (List UInt8) :=
  (name.fold.labels.map Label.octets).reverse

/-- Relative names come first; otherwise the labels decide, from the root on, as `orderKey` lists
them. -/
instance : Ord Name :=
  ⟨fun a b => (compare a.absolute b.absolute).then (compare a.orderKey b.orderKey)⟩

/-- `name` is `other` or a name below it. -/
def IsSubdomainOf (name other : Name) : Prop :=
  name.absolute = other.absolute ∧ other.fold.labels <:+ name.fold.labels

instance (name other : Name) : Decidable (name.IsSubdomainOf other) :=
  inferInstanceAs (Decidable (_ ∧ _))

/-! ## Deriving names -/

/-- The labels that `name` has above `origin`, as a relative name; a name that is not below
`origin` stays as it is. -/
def relativize (name origin : Name) : Name :=
  if name.IsSubdomainOf origin then
    ⟨name.labels.take (name.labels.length - origin.labels.length), false,
      Nat.le_trans (wireSize_take_le ..) name.fits⟩
  else name

/-- `name` followed by `suffix`; an absolute name stays as it is. -/
def append? (name suffix : Name) : Except NameError Name :=
  if name.absolute then .ok name
  else if fits : wireSize (name.labels ++ suffix.labels) ≤ 254 then
    .ok ⟨name.labels ++ suffix.labels, suffix.absolute, fits⟩
  else .error .longName

/-- `name` made absolute by appending the root, for which every name has room. -/
def toAbsolute (name : Name) : Name := { name with absolute := true }

/-- `name` with the ancestor `owner` replaced by `target`; nothing if `name` is not strictly
below `owner`. -/
def rewrite? (name owner target : Name) : Except NameError (Option Name) :=
  if name.IsSubdomainOf owner ∧ ¬(name == owner) then
    ((name.relativize owner).append? target).map some
  else .ok none

end Name

end NameResolution
