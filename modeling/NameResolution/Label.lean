/-!
# Labels

A `Label` is one step of a domain name: 1 to 63 octets of any value. Labels are compared without
regard to ASCII case, which is equality of their folded forms (`Label.fold`).

* `Label.ofOctets?`: the label made of given octets, or what is wrong with them.
* `wireSize`: how many octets a list of labels takes, each with its length octet.
* `wireSize_fold`: folding changes no sizes.
-/

namespace NameResolution

/-- Why a domain name or one of its labels cannot be made. -/
inductive NameError
  | emptyLabel
  | longLabel
  | longName
  | badEscape
  deriving DecidableEq, Repr

/-- The text of a name error. -/
def NameError.message : NameError → String
  | .emptyLabel => "empty label"
  | .longLabel => "label too long"
  | .longName => "name too long"
  | .badEscape => "invalid escape sequence"

/-- The `octet` with an ASCII capital made small. -/
def foldOctet (octet : UInt8) : UInt8 :=
  if 65 ≤ octet ∧ octet ≤ 90 then octet + 32 else octet

@[simp] theorem foldOctet_foldOctet (octet : UInt8) :
    foldOctet (foldOctet octet) = foldOctet octet := by
  unfold foldOctet
  split
  · rw [if_neg]
    simp only [UInt8.le_iff_toNat_le, UInt8.toNat_add] at *
    simp at *
    omega
  · rfl

/-- One step of a domain name: 1 to `maxLength` octets. -/
structure Label where
  octets : List UInt8
  nonempty : 0 < octets.length
  short : octets.length ≤ 63
  deriving DecidableEq

namespace Label

/-- The most octets a `Label` may have. -/
def maxLength : Nat := 63

/-- The label made of `octets`. -/
def ofOctets? (octets : List UInt8) : Except NameError Label :=
  if empty : octets.length = 0 then .error .emptyLabel
  else if short : octets.length ≤ 63 then .ok ⟨octets, Nat.pos_of_ne_zero empty, short⟩
  else .error .longLabel

/-- The `label` in small letters. -/
def fold (label : Label) : Label where
  octets := label.octets.map foldOctet
  nonempty := by simpa using label.nonempty
  short := by simpa using label.short

/-- How many `octets` the `label` has. -/
def length (label : Label) : Nat := label.octets.length

@[simp] theorem length_fold (label : Label) : label.fold.length = label.length := by
  simp [length, fold]

@[simp] theorem fold_fold (label : Label) : label.fold.fold = label.fold := by
  simp [fold, Function.comp_def]

end Label

/-- How many octets `labels` take in a message, each with its length octet in front. -/
def wireSize : List Label → Nat
  | [] => 0
  | label :: labels => label.length + 1 + wireSize labels

@[simp] theorem wireSize_nil : wireSize [] = 0 := rfl

@[simp] theorem wireSize_cons (label : Label) (labels : List Label) :
    wireSize (label :: labels) = label.length + 1 + wireSize labels := rfl

@[simp] theorem wireSize_append (labels more : List Label) :
    wireSize (labels ++ more) = wireSize labels + wireSize more := by
  induction labels with
  | nil => simp
  | cons label labels ih => simp only [List.cons_append, wireSize_cons, ih]; omega

@[simp] theorem wireSize_fold (labels : List Label) :
    wireSize (labels.map Label.fold) = wireSize labels := by
  induction labels with
  | nil => rfl
  | cons label labels ih => simp [ih]

/-- Without their first one, the `labels` of a name fit into a name again. -/
theorem fits_tail {label : Label} {labels : List Label} (fits : wireSize (label :: labels) ≤ 254) :
    wireSize labels ≤ 254 := Nat.le_trans (Nat.le_add_left _ _) fits

/-- Taking `labels` away makes a list no larger. -/
theorem wireSize_take_le (labels : List Label) (count : Nat) :
    wireSize (labels.take count) ≤ wireSize labels := by
  conv => rhs; rw [← List.take_append_drop count labels, wireSize_append]
  omega

end NameResolution
