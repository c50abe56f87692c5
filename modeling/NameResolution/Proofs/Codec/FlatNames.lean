import NameResolution.Name.Wire
import NameResolution.Proofs.Codec.Names
import NameResolution.Proofs.Names

/-!
# Names as rows of octets

A name can be kept as one row of octets, each label behind its length octet. Such a row is cut and
scanned by position, and nothing but the length octets says where a label begins. Here the
operations on names are stated for rows, with every step that could leave the row or cut through a
label, and are shown to do to the rows of names what they do to the names.

* `FlatName`: a row with the flag whether the root follows.
* `FlatName.cut`, `FlatName.parent?`, `FlatName.suffixes`, `FlatName.startsAt`: going through a row
  by its length octets.
* `Name.flat`, `Name.flat_injective`: the row of a name, by which the name is known.
* `FlatName.cut_row`, `FlatName.startsAt_append`: the row of a name is cut at its labels, and
  the places where a label starts are found without leaving the row.
* `Name.flat_parent?`, `Name.flat_suffixes`, `Name.flat_isSubdomainOf`, `Name.flat_relativize`,
  `Name.flat_append`, `Name.flat_rewrite?`: the operations agree.
-/

namespace NameResolution

/-- Why no `name` can be had: the fault of its labels, that of the `octets` of a message, or that
there is no such name. -/
inductive Refusal
  | name (error : NameError)
  | octets (error : DecodeError)
  | nothing
  deriving DecidableEq

/-- Why an operation on a row fails: it leaves the row (`outOfRange`), or there is no such name. -/
inductive FlatFault
  | outOfRange
  | refused (refusal : Refusal)
  deriving DecidableEq

/-- A `Name` as a row of octets: its labels one behind the other, each behind its length octet, and
whether the root follows them. -/
structure FlatName where
  content : List UInt8
  absolute : Bool
  deriving DecidableEq

namespace FlatName

/-- How many octets a `FlatName` may take in a message, the root included. -/
def maxSize : Nat := 255

/-- How many labels a `FlatName` may have, the root included. -/
def maxLabels : Nat := 128

/-- The `root`. -/
def root : FlatName := ⟨[], true⟩

/-- The relative `FlatName` without labels. -/
def empty : FlatName := ⟨[], false⟩

/-- How many octets the `name` takes in a message. -/
def wireLength (name : FlatName) : Nat := name.content.length + if name.absolute then 1 else 0

/-! ## Going through a row -/

/-- The `labels` of a row, cut off one after the other. -/
def cut : List UInt8 → Except FlatFault (List (List UInt8))
  | [] => .ok []
  | length :: rest =>
    if length.toNat ≤ rest.length then do
      let labels ← cut (rest.drop length.toNat)
      return rest.take length.toNat :: labels
    else .error .outOfRange
  termination_by content => content.length
  decreasing_by
    rw [List.length_drop, List.length_cons]
    omega

/-- The `name` without its first label. -/
def parent? (name : FlatName) : Except FlatFault (Option FlatName) :=
  match name.content with
  | [] => .ok none
  | length :: rest =>
    if length.toNat ≤ rest.length then .ok (some ⟨rest.drop length.toNat, name.absolute⟩)
    else .error .outOfRange

theorem length_lt_of_parent? {name parent : FlatName} (up : name.parent? = .ok (some parent)) :
    parent.content.length < name.content.length := by
  unfold parent? at up
  split at up
  · cases up
  · rename_i content
    split at up
    · obtain rfl := Option.some.inj (Except.ok.inj up)
      rw [content, List.length_drop, List.length_cons]
      omega
    · cases up

/-- The `name` and its ancestors, the nearest first. -/
def suffixes (name : FlatName) : Except FlatFault (List FlatName) :=
  match _up : name.parent? with
  | .error fault => .error fault
  | .ok none => .ok [name]
  | .ok (some parent) => do
    let more ← parent.suffixes
    return name :: more
  termination_by name.content.length
  decreasing_by exact length_lt_of_parent? _up

theorem suffixes_of_top {name : FlatName} (top : name.parent? = .ok none) :
    name.suffixes = .ok [name] := by
  rw [suffixes]
  split <;> simp_all

theorem suffixes_of_parent {name parent : FlatName} {more : List FlatName}
    (up : name.parent? = .ok (some parent)) (above : parent.suffixes = .ok more) :
    name.suffixes = .ok (name :: more) := by
  rw [suffixes]
  split
  · simp_all
  · simp_all
  · rename_i same
    rw [up, Except.ok.injEq, Option.some.injEq] at same
    rw [← same, above]
    rfl

/-- Whether a label starts at `index`, if one starts at `pos`: goes from length octet to length
octet until it reaches `index` or a place behind it. -/
def startsAt (content : List UInt8) (index pos : Nat) : Except FlatFault Bool :=
  if pos < index then
    match content[pos]? with
    | none => .error .outOfRange
    | some length => startsAt content index (pos + length.toNat + 1)
  else .ok (pos == index)
  termination_by index - pos

/-! ## Operations -/

/-- The rows `content` and `other` differ at most in the ASCII case of their octets, the length
octets included. -/
def SameOctets (content other : List UInt8) : Prop := content.map foldOctet = other.map foldOctet

instance (content other : List UInt8) : Decidable (SameOctets content other) :=
  inferInstanceAs (Decidable (_ = _))

/-- Whether the `name` is the other one or below it: whether the rest of its row that is as long as
the other row starts with a label and has the same octets. -/
def isSubdomainOf (name other : FlatName) : Except FlatFault Bool :=
  if name.absolute ≠ other.absolute ∨ name.content.length < other.content.length then .ok false
  else do
    let start := name.content.length - other.content.length
    let starts ← startsAt name.content start 0
    return starts && decide (SameOctets (name.content.drop start) other.content)

/-- What the name has in front of `origin`; a name that is not below `origin` stays as it is. -/
def relativize (name origin : FlatName) : Except FlatFault FlatName := do
  let below ← name.isSubdomainOf origin
  if below then
    return ⟨name.content.take (name.content.length - origin.content.length), false⟩
  else return name

/-- The name with `suffix` behind it; an absolute name stays as it is. -/
def append (name suffix : FlatName) : Except FlatFault FlatName :=
  if name.absolute then .ok name
  else if maxSize < name.content.length + suffix.content.length + 1 then
    .error (.refused (.name .longName))
  else do
    let labels ← cut name.content
    let more ← cut suffix.content
    if maxLabels < labels.length + more.length + 1 then .error (.refused (.name .longName))
    else return ⟨name.content ++ suffix.content, suffix.absolute⟩

/-- The name with `owner` at its end replaced by `target`; nothing if it is not below `owner`. -/
def rewrite? (name owner target : FlatName) : Except FlatFault (Option FlatName) := do
  let below ← name.isSubdomainOf owner
  if below ∧ ¬(name.absolute = owner.absolute ∧ SameOctets name.content owner.content) then
    let front ← name.relativize owner
    return some (← front.append target)
  else return none

/-! ## The rows of labels -/

/-- The `row` of `labels`. -/
def row (labels : List Label) : List UInt8 := labels.flatMap Label.wireOctets

@[simp] theorem row_nil : row [] = [] := rfl

theorem row_cons (label : Label) (labels : List Label) :
    row (label :: labels) =
      UInt8.ofNat label.length :: (label.octets ++ row labels) := rfl

@[simp] theorem row_append (labels more : List Label) :
    row (labels ++ more) = row labels ++ row more := List.flatMap_append

@[simp] theorem length_row (labels : List Label) :
    (row labels).length = wireSize labels := by
  induction labels with
  | nil => rfl
  | cons label labels ih =>
    rw [row_cons, List.length_cons, List.length_append, ih, wireSize_cons]
    show label.length + wireSize labels + 1 = _
    omega

/-- A length octet is no letter, so it does not change if letters are made small. -/
theorem foldOctet_length (label : Label) :
    foldOctet (UInt8.ofNat label.length) = UInt8.ofNat label.length := by
  have short : label.length ≤ 63 := label.short
  rw [foldOctet, if_neg]
  rintro ⟨capital, -⟩
  have least : 65 ≤ label.length := by
    simpa [label.toNat_lengthOctet] using UInt8.le_iff_toNat_le.mp capital
  omega

theorem map_foldOctet_row (labels : List Label) :
    (row labels).map foldOctet = row (labels.map Label.fold) := by
  induction labels with
  | nil => rfl
  | cons label labels ih =>
    rw [row_cons, List.map_cons, List.map_append, ih, foldOctet_length, List.map_cons,
      row_cons, Label.length_fold]
    rfl

/-- The `row` of `labels` is cut at these labels. -/
theorem cut_row (labels : List Label) :
    cut (row labels) = .ok (labels.map Label.octets) := by
  induction labels with
  | nil => rw [row_nil, cut]; rfl
  | cons label labels ih =>
    have length : label.length = label.octets.length := rfl
    rw [row_cons, cut, label.toNat_lengthOctet, length, List.drop_left, List.take_left, ih,
      if_pos (by rw [List.length_append]; omega)]
    rfl

/-- Labels are known by their `row`. -/
theorem row_injective {labels more : List Label} (same : row labels = row more) :
    labels = more := by
  have cuts := cut_row labels
  rw [same, cut_row more, Except.ok.injEq] at cuts
  exact (List.map_inj_right fun _ _ => Label.eq_of_octets).mp cuts.symm

/-- Rows of `labels` are the same but for ASCII case if the labels are. -/
theorem sameOctets_row {labels more : List Label} :
    SameOctets (row labels) (row more) ↔
      labels.map Label.fold = more.map Label.fold := by
  rw [SameOctets, map_foldOctet_row, map_foldOctet_row]
  exact ⟨row_injective, congrArg row⟩

/-- Going from length octet to length octet finds the places where `labels` start, and leaves the
`row` nowhere. The induction is on the labels that are still to come, behind what has been
passed. -/
theorem startsAt_append (passed : List UInt8) (labels : List Label) {index : Nat}
    (inside : index ≤ passed.length + wireSize labels) :
    ∃ starts, startsAt (passed ++ row labels) index passed.length = .ok starts ∧
      (starts = true ↔
        ∃ front rest, labels = front ++ rest ∧ passed.length + wireSize front = index) := by
  induction labels generalizing passed with
  | nil =>
    rw [wireSize_nil] at inside
    rw [startsAt, if_neg (by omega)]
    refine ⟨_, rfl, ?_⟩
    simp [List.append_eq_nil_iff]
  | cons label labels ih =>
    by_cases before : passed.length < index
    · -- The places are searched one label further on: the label is passed, and the rest of the row
      -- stays.
      have octet : (passed ++ row (label :: labels))[passed.length]? =
          some (UInt8.ofNat label.length) := by
        rw [List.getElem?_append_right (Nat.le_refl _), Nat.sub_self, row_cons]
        rfl
      have size : (passed ++ label.wireOctets).length = passed.length + label.length + 1 := by
        rw [List.length_append, Label.length_wireOctets, Nat.add_assoc]
      have whole : passed ++ label.wireOctets ++ row labels = passed ++ row (label :: labels) := by
        rw [List.append_assoc]
        rfl
      obtain ⟨starts, found, known⟩ := ih (passed ++ label.wireOctets) (by
        rw [wireSize_cons] at inside
        omega)
      rw [whole, size] at found
      refine ⟨starts, ?_, known.trans ⟨?_, ?_⟩⟩
      · rw [startsAt, if_pos before, octet]
        simpa only [label.toNat_lengthOctet] using found
      · rintro ⟨front, rest, rfl, there⟩
        refine ⟨label :: front, rest, rfl, ?_⟩
        rw [wireSize_cons]
        omega
      · rintro ⟨front, rest, same, there⟩
        cases front with
        | nil =>
          rw [wireSize_nil] at there
          omega
        | cons first front =>
          obtain ⟨rfl, rfl⟩ := List.cons.inj same
          rw [wireSize_cons] at there
          exact ⟨front, rest, rfl, by omega⟩
    · rw [startsAt, if_neg before]
      refine ⟨_, rfl, ?_⟩
      rw [beq_iff_eq]
      constructor
      · intro here
        exact ⟨[], label :: labels, rfl, by simpa using here⟩
      · rintro ⟨front, rest, -, there⟩
        omega

end FlatName

/-! ## The rows of names -/

namespace Name

open FlatName

/-- The `row` of a `name`. -/
def flat (name : Name) : FlatName := ⟨row name.labels, name.absolute⟩

/-- The rows, by `toRow`, of what an operation on names gives. -/
def flattened {α β : Type} (toRow : α → β) : Except Refusal α → Except FlatFault β
  | .ok value => .ok (toRow value)
  | .error refusal => .error (.refused refusal)

theorem flat_injective {a b : Name} (same : a.flat = b.flat) : a = b := by
  rw [flat, flat, FlatName.mk.injEq] at same
  exact eq_of_labels (row_injective same.1) same.2

theorem flat_parent? (name : Name) : name.flat.parent? = .ok (name.parent?.map flat) := by
  obtain ⟨labels, absolute, fits⟩ := name
  cases labels with
  | nil => rfl
  | cons label labels =>
    have length : label.length = label.octets.length := rfl
    simp only [FlatName.parent?, flat, row_cons, label.toNat_lengthOctet]
    rw [if_pos (by rw [List.length_append]; omega), length, List.drop_left]
    rfl

theorem flat_suffixes (name : Name) : name.flat.suffixes = .ok (name.suffixes.map flat) := by
  obtain ⟨labels, absolute, fits⟩ := name
  induction labels with
  | nil => exact suffixes_of_top (flat_parent? _)
  | cons label labels ih => exact suffixes_of_parent (flat_parent? _) (ih (fits_tail fits))

/-- A `name` below another one ends in `labels` that are the same but for ASCII case. -/
theorem IsSubdomainOf.exists_split {name other : Name} (below : name.IsSubdomainOf other) :
    ∃ front rest, name.labels = front ++ rest ∧
      rest.map Label.fold = other.labels.map Label.fold := by
  obtain ⟨front, whole⟩ := below.2
  obtain ⟨first, rest, labels, -, last⟩ := List.map_eq_append_iff.mp whole.symm
  exact ⟨first, rest, labels, last⟩

/-- A `name` is below another one exactly if a label starts where its `row` is only as long as the
other row, and the rows are the same from there on. -/
theorem isSubdomainOf_iff_row {name other : Name} (absolute : name.absolute = other.absolute) :
    name.IsSubdomainOf other ↔
      (∃ front rest, name.labels = front ++ rest ∧
        wireSize front = wireSize name.labels - wireSize other.labels) ∧
      SameOctets ((row name.labels).drop (wireSize name.labels - wireSize other.labels))
        (row other.labels) := by
  have behind {front rest : List Label} (whole : name.labels = front ++ rest)
      (start : wireSize front = wireSize name.labels - wireSize other.labels) :
      (row name.labels).drop (wireSize name.labels - wireSize other.labels) = row rest := by
    rw [← start, whole, row_append, ← length_row front, List.drop_left]
  constructor
  · intro below
    obtain ⟨front, rest, whole, same⟩ := below.exists_split
    have start : wireSize front = wireSize name.labels - wireSize other.labels := by
      rw [whole, wireSize_append, ← wireSize_eq_of_fold same]
      omega
    rw [behind whole start]
    exact ⟨⟨front, rest, whole, start⟩, sameOctets_row.mpr same⟩
  · rintro ⟨⟨front, rest, whole, start⟩, same⟩
    rw [behind whole start, sameOctets_row] at same
    refine ⟨absolute, front.map Label.fold, ?_⟩
    show _ ++ other.labels.map Label.fold = name.labels.map Label.fold
    rw [whole, List.map_append, same]

/-- The test on rows is right: the row of a `name` that is not below the other one may end in the
same octets, but then no label starts there. -/
theorem flat_isSubdomainOf (name other : Name) :
    name.flat.isSubdomainOf other.flat = .ok (decide (name.IsSubdomainOf other)) := by
  simp only [isSubdomainOf, flat, length_row]
  by_cases apart : name.absolute ≠ other.absolute ∨ wireSize name.labels < wireSize other.labels
  · -- Rows of other ends or longer ancestors are told apart before any label is looked at.
    have outside : ¬name.IsSubdomainOf other := by
      intro below
      rcases apart with differ | shorter
      · exact differ below.1
      · obtain ⟨front, rest, whole, same⟩ := below.exists_split
        rw [whole, wireSize_append, ← wireSize_eq_of_fold same] at shorter
        omega
    rw [if_pos apart, decide_eq_false outside]
  · rw [if_neg apart]
    simp only [not_or, ne_eq, Decidable.not_not, Nat.not_lt] at apart
    -- The place where the row of the other name would start. It is one of a label or not.
    have inside : wireSize name.labels - wireSize other.labels ≤
        ([] : List UInt8).length + wireSize name.labels := by
      rw [List.length_nil]
      omega
    obtain ⟨starts, found, known⟩ := startsAt_append [] name.labels inside
    rw [List.nil_append, List.length_nil] at found
    simp only [List.length_nil, Nat.zero_add] at known
    rw [found]
    show Except.ok _ = _
    rw [Except.ok.injEq, Bool.eq_iff_iff, Bool.and_eq_true, decide_eq_true_eq, decide_eq_true_eq,
      known, isSubdomainOf_iff_row apart.1]

theorem flat_relativize (name origin : Name) :
    name.flat.relativize origin.flat = .ok (name.relativize origin).flat := by
  rw [FlatName.relativize, flat_isSubdomainOf]
  by_cases below : name.IsSubdomainOf origin
  · obtain ⟨front, rest, whole, same⟩ := below.exists_split
    have size : wireSize name.labels - wireSize origin.labels = wireSize front := by
      rw [whole, wireSize_append, ← wireSize_eq_of_fold same]
      omega
    have count : name.labels.length - origin.labels.length = front.length := by
      have lengths := congrArg List.length same
      simp only [List.length_map] at lengths
      rw [whole, List.length_append, lengths]
      omega
    rw [relativize, if_pos below]
    simp only [flat, decide_eq_true below, length_row, size, count]
    show Except.ok _ = Except.ok _
    rw [whole, row_append, ← length_row front, List.take_left, List.take_left]
  · rw [relativize, if_neg below]
    simp only [decide_eq_false below]
    rfl

/-- Where there are too many labels for `append` there are too many octets, so it is never the
number of labels that is at fault. -/
theorem flat_append (name suffix : Name) :
    name.flat.append suffix.flat = flattened flat ((name.append? suffix).mapError .name) := by
  simp only [FlatName.append, append?, flat, length_row, cut_row]
  by_cases absolute : name.absolute = true
  · rw [if_pos absolute, if_pos absolute]
    rfl
  · rw [if_neg absolute, if_neg absolute]
    by_cases long : maxSize < wireSize name.labels + wireSize suffix.labels + 1
    · have large : ¬wireSize (name.labels ++ suffix.labels) ≤ 254 := by
        simp only [maxSize, wireSize_append] at long ⊢
        omega
      rw [if_pos long, dif_neg large]
      rfl
    · have fits : wireSize (name.labels ++ suffix.labels) ≤ 254 := by
        simp only [maxSize, wireSize_append] at long ⊢
        omega
      -- Each label takes two octets at least, so the limit on labels follows from that on octets.
      have few : ¬maxLabels < name.labels.length + suffix.labels.length + 1 := by
        have size := two_mul_length_le (name.labels ++ suffix.labels)
        rw [List.length_append] at size
        unfold maxLabels
        omega
      rw [if_neg long, dif_pos fits]
      show (if maxLabels < (name.labels.map _).length + (suffix.labels.map _).length + 1
        then _ else _) = _
      rw [List.length_map, List.length_map, if_neg few, ← row_append]
      rfl

theorem flat_rewrite? (name owner target : Name) :
    name.flat.rewrite? owner.flat target.flat =
      flattened (Option.map flat) ((name.rewrite? owner target).mapError .name) := by
  have same : (name.absolute = owner.absolute ∧ SameOctets (row name.labels) (row owner.labels)) ↔
      (name == owner) = true := by
    rw [sameOctets_row, beq_iff_labels]
  rw [FlatName.rewrite?, flat_isSubdomainOf, flat_relativize, rewrite?]
  show (if decide (name.IsSubdomainOf owner) = true ∧ ¬(name.absolute = owner.absolute ∧
    SameOctets (row name.labels) (row owner.labels)) then _ else _) = _
  simp only [same, decide_eq_true_eq]
  by_cases below : name.IsSubdomainOf owner ∧ ¬(name == owner) = true
  · rw [if_pos below, if_pos below]
    show (do return some (← (name.relativize owner).flat.append target.flat)) = _
    rw [flat_append]
    cases (name.relativize owner).append? target <;> rfl
  · rw [if_neg below, if_neg below]
    rfl

end Name

end NameResolution
