import NameResolution.Name.Text
import NameResolution.Proofs.Names

/-!
# The grammar of the presentation format

* `Name.Sign`, `Name.Signs`: how the octets of a label may be written, and a label as a whole.
* `Name.Dotted`: labels with single dots between them, and whether a dot follows the last one.
* `Name.scan_of_dotted`, `Name.dotted_of_scan`: scanning finds the labels of a dotted text, and
  nothing else.
* `Name.parse_decides`: so the texts of names are exactly the dotted texts within the limits of
  names, apart from the two texts with a meaning of their own.
* `Name.dotted_labelsText`: names are written as dotted texts.
* `Name.parse_toText`: so the text of a name is read as the same name.
-/

namespace NameResolution

namespace Name

/-! ## Signs -/

/-- How a `Sign` of a label is written, and the octets that it stands for: a character as it is, a
character behind a backslash, or three decimal digits behind a backslash. -/
inductive Sign : List Char → List UInt8 → Prop
  | plain {c : Char} : c ≠ '.' → c ≠ '\\' → Sign [c] (String.utf8EncodeChar c)
  | escaped {c : Char} : c.isDigit = false → Sign ['\\', c] (String.utf8EncodeChar c)
  | decimal {a b c : Char} {octet : UInt8} :
      a.isDigit = true → b.isDigit = true → c.isDigit = true →
      octet.toNat = (a.toNat - '0'.toNat) * 100 + (b.toNat - '0'.toNat) * 10 +
        (c.toNat - '0'.toNat) →
      Sign ['\\', a, b, c] [octet]

/-- Signs one behind the other. -/
inductive Signs : List Char → List UInt8 → Prop
  | nil : Signs [] []
  | cons {chars text : List Char} {octets more : List UInt8} :
      Sign chars octets → Signs text more → Signs (chars ++ text) (octets ++ more)

theorem Sign.octets_ne_nil {chars : List Char} {octets : List UInt8} (sign : Sign chars octets) :
    octets ≠ [] := by
  have encoded (c : Char) : String.utf8EncodeChar c ≠ [] := by
    intro none
    have length := String.length_utf8EncodeChar c
    have positive := c.utf8Size_pos
    simp only [none, List.length_nil] at length
    omega
  cases sign with
  | plain _ _ => exact encoded _
  | escaped _ => exact encoded _
  | decimal _ _ _ _ => simp

theorem Sign.chars_ne_nil {chars : List Char} {octets : List UInt8} (sign : Sign chars octets) :
    chars ≠ [] := by
  cases sign <;> simp

/-- No octets are written as no `text`, and nothing else is. -/
theorem Signs.eq_nil_iff {text : List Char} {label : List UInt8} (signs : Signs text label) :
    text = [] ↔ label = [] := by
  cases signs with
  | nil => simp
  | cons sign _ => simp [sign.chars_ne_nil, sign.octets_ne_nil]

theorem Signs.snoc {text chars : List Char} {label octets : List UInt8} (signs : Signs text label)
    (sign : Sign chars octets) : Signs (text ++ chars) (label ++ octets) := by
  induction signs with
  | nil => simpa using Signs.cons sign .nil
  | cons first _ ih => simpa using Signs.cons first ih

/-- Labels that `Signs` reads, with single dots between them, and whether a dot follows the last
one. -/
inductive Dotted : List Char → List (List UInt8) → Bool → Prop
  | last {text : List Char} {label : List UInt8} :
      Signs text label → text ≠ [] → Dotted text [label] false
  | closed {text : List Char} {label : List UInt8} :
      Signs text label → text ≠ [] → Dotted (text ++ ['.']) [label] true
  | cons {text rest : List Char} {label : List UInt8} {labels : List (List UInt8)}
      {absolute : Bool} :
      Signs text label → text ≠ [] → Dotted rest labels absolute →
      Dotted (text ++ '.' :: rest) (label :: labels) absolute

/-! ## Scanning -/

/-- Three digits are read as the `octet` that they are written for. -/
theorem octetOfDigits?_eq_some_iff {a b c : Char} {octet : UInt8} :
    octetOfDigits? a b c = some octet ↔
      a.isDigit = true ∧ b.isDigit = true ∧ c.isDigit = true ∧
      octet.toNat = (a.toNat - '0'.toNat) * 100 + (b.toNat - '0'.toNat) * 10 +
        (c.toNat - '0'.toNat) := by
  unfold octetOfDigits? digit?
  by_cases first : a.isDigit = true
  · by_cases second : b.isDigit = true
    · by_cases third : c.isDigit = true
      · simp only [first, second, third, if_true, Option.bind_eq_bind, Option.bind_some, true_and]
        generalize (a.toNat - '0'.toNat) * 100 + (b.toNat - '0'.toNat) * 10 +
          (c.toNat - '0'.toNat) = value
        constructor
        · intro found
          split at found
          · obtain rfl := Option.some.inj found
            rw [UInt8.toNat_ofNat']
            omega
          · cases found
        · rintro rfl
          have bound := octet.toNat_lt
          rw [if_pos (by omega), UInt8.ofNat_toNat]
      · simp [first, second, third]
    · simp [first, second]
  · simp [first]

/-- A `sign` is scanned as the `octets` that it stands for. -/
theorem scan_of_sign {chars : List Char} {octets : List UInt8} (sign : Sign chars octets)
    (label : List UInt8) (short : (label ++ octets).length ≤ 63) (rest : List Char) :
    scan label (chars ++ rest) = scan (label ++ octets) rest := by
  have small : ¬Label.maxLength < (label ++ octets).length := Nat.not_lt.mpr short
  cases sign with
  | plain dot backslash =>
    rw [List.singleton_append, scan]
    · rw [if_neg small]
    · exact dot
    · exact backslash
  | escaped other =>
    -- The scanner looks at the next three characters before it knows whether they are digits.
    rcases rest with _ | ⟨d, _ | ⟨e, rest⟩⟩
    all_goals
      simp only [List.cons_append, List.nil_append, scan, other, Bool.false_eq_true, if_false,
        if_neg small]
  | decimal first second third value =>
    have octet := octetOfDigits?_eq_some_iff.mpr ⟨first, second, third, value⟩
    simp only [List.cons_append, List.nil_append, scan, first, octet, if_true, if_neg small]

theorem scan_of_signs {text : List Char} {octets : List UInt8} (signs : Signs text octets)
    (label : List UInt8) (short : (label ++ octets).length ≤ 63) (rest : List Char) :
    scan label (text ++ rest) = scan (label ++ octets) rest := by
  induction signs generalizing label with
  | nil => simp
  | @cons chars text octets more sign _ ih =>
    rw [← List.append_assoc] at short
    have front : (label ++ octets).length ≤ 63 := by
      rw [List.length_append] at short
      omega
    rw [List.append_assoc, scan_of_sign sign label front, ih _ short, List.append_assoc]

/-- How the labels of a relative and of an `absolute` name end. -/
def Ending.ofName (absolute : Bool) : Ending := if absolute then .absolute else .relative

theorem Ending.ofName_ne_fault (absolute : Bool) (error : NameError) :
    ofName absolute ≠ .fault error := by
  cases absolute <;> simp [ofName]

theorem Ending.ofName_eq_relative {absolute : Bool} (ends : .relative = ofName absolute) :
    absolute = false := by
  cases absolute with
  | false => rfl
  | true => cases ends

theorem Ending.ofName_eq_absolute {absolute : Bool} (ends : .absolute = ofName absolute) :
    absolute = true := by
  cases absolute with
  | false => cases ends
  | true => rfl

/-- Scanning finds the `labels` of a `Dotted` `text`. -/
theorem scan_of_dotted {text : List Char} {labels : List (List UInt8)} {absolute : Bool}
    (dotted : Dotted text labels absolute) (short : ∀ label ∈ labels, label.length ≤ 63) :
    scan [] text = (labels, .ofName absolute) := by
  induction dotted with
  | @last text label signs _ =>
    have found := scan_of_signs signs [] (short _ List.mem_cons_self) []
    rw [List.append_nil, List.nil_append] at found
    rw [found]
    rfl
  | @closed text label signs _ =>
    rw [scan_of_signs signs [] (short _ List.mem_cons_self), List.nil_append]
    rfl
  | @cons text rest label labels absolute signs _ more ih =>
    have found := ih fun label mem => short label (List.mem_cons_of_mem _ mem)
    have left : rest.isEmpty = false := by
      cases more with
      | last _ some => simpa using some
      | closed _ _ => simp
      | cons _ _ _ => simp
    rw [scan_of_signs signs [] (short _ List.mem_cons_self), List.nil_append, scan, found, left]
    rfl

/-- What is scanned to its end without an empty label is a dotted text. The induction is on the rest
of the text; `written` is the text of the label in progress. -/
theorem dotted_of_scan {label : List UInt8} {text written : List Char}
    {labels : List (List UInt8)} {absolute : Bool} (signs : Signs written label)
    (found : scan label text = (labels, .ofName absolute)) (filled : ∀ label ∈ labels, label ≠ []) :
    Dotted (written ++ text) labels absolute := by
  -- Scanning that ends with a fault is no scanning to the end, which settles the cases with a
  -- fault.
  have faultless {error : NameError} {labels : List (List UInt8)}
      (failed : ([], Ending.fault error) = (labels, Ending.ofName absolute)) : False :=
    Ending.ofName_ne_fault absolute error (congrArg Prod.snd failed).symm
  have text_ne_nil {text : List Char} {label : List UInt8} (signs : Signs text label)
      (some : label ≠ []) : text ≠ [] := mt signs.eq_nil_iff.mp some
  fun_induction scan label text generalizing written labels with
  | case1 label =>
    obtain ⟨rfl, ends⟩ := Prod.mk.inj found
    rw [Ending.ofName_eq_relative ends, List.append_nil]
    exact .last signs (text_ne_nil signs (filled _ List.mem_cons_self))
  | case2 label rest ends =>
    obtain ⟨rfl, whole⟩ := Prod.mk.inj found
    rw [Ending.ofName_eq_absolute whole, List.isEmpty_iff.mp ends]
    exact .closed signs (text_ne_nil signs (filled _ List.mem_cons_self))
  | case3 label rest _ others ending behind ih =>
    obtain ⟨rfl, rfl⟩ := Prod.mk.inj found
    have more := ih .nil behind fun label mem => filled label (List.mem_cons_of_mem _ mem)
    exact .cons signs (text_ne_nil signs (filled _ List.mem_cons_self)) more
  | case4 | case5 | case7 | case8 | case9 | case11 => exact (faultless found).elim
  -- In the last three cases one more sign of the label has been read.
  | case6 label c digit d e rest octet value =>
    rename_i ih
    have sign := octetOfDigits?_eq_some_iff.mp value
    have written' := signs.snoc (.decimal sign.1 sign.2.1 sign.2.2.1 sign.2.2.2)
    simpa using ih written' found filled
  | case10 label c rest other =>
    rename_i ih
    have written' := signs.snoc (.escaped (by simpa using other))
    simpa using ih written' found filled
  | case12 label c rest dot backslash =>
    rename_i ih
    have written' := signs.snoc (.plain dot backslash)
    simpa using ih written' found filled

/-! ## Names from labels -/

/-- Octets make a `label` exactly if they are those of the label. -/
theorem ofOctets?_eq_ok_iff {octets : List UInt8} {label : Label} :
    Label.ofOctets? octets = .ok label ↔ label.octets = octets := by
  constructor
  · intro made
    unfold Label.ofOctets? at made
    split at made
    · cases made
    · split at made
      · obtain rfl := Except.ok.inj made
        rfl
      · cases made
  · rintro rfl
    have some := label.nonempty
    rw [Label.ofOctets?, dif_neg (by omega), dif_pos label.short]

theorem octets_of_labelsOf? {room : Nat} {parts : List (List UInt8)}
    {made : { labels : List Label // wireSize labels ≤ room }}
    (found : labelsOf? room parts = .ok made) : made.1.map Label.octets = parts := by
  induction parts generalizing room with
  | nil =>
    obtain rfl := Except.ok.inj found
    rfl
  | cons part parts ih =>
    unfold labelsOf? at found
    cases first : Label.ofOctets? part with
    | error error => simp [first, bind, Except.bind] at found
    | ok label =>
      simp only [first, bind, Except.bind] at found
      split at found
      · cases rest : labelsOf? (room - (label.length + 1)) parts with
        | error error => simp [rest] at found
        | ok more =>
          simp only [rest] at found
          obtain rfl := Except.ok.inj found
          rw [List.map_cons, ih rest, ofOctets?_eq_ok_iff.mp first]
      · cases found

theorem labelsOf?_of_fits {room : Nat} {labels : List Label} (fits : wireSize labels ≤ room) :
    labelsOf? room (labels.map Label.octets) = .ok ⟨labels, fits⟩ := by
  induction labels generalizing room with
  | nil => rfl
  | cons label labels ih =>
    rw [wireSize_cons] at fits
    have less : wireSize labels ≤ room - (label.length + 1) := by omega
    have rest := ih less
    rw [List.map_cons, labelsOf?, ofOctets?_eq_ok_iff.mpr rfl]
    simp only [bind, Except.bind, rest]
    rw [dif_pos (by omega)]
    rfl

/-- Parts make a `name` exactly if they are the `labels` of the name. -/
theorem ofLabels?_eq_ok_iff {parts : List (List UInt8)} {absolute : Bool} {name : Name} :
    ofLabels? parts absolute = .ok name ↔
      name.labels.map Label.octets = parts ∧ name.absolute = absolute := by
  constructor
  · intro made
    unfold ofLabels? at made
    cases found : labelsOf? 254 parts with
    | error error => simp [found, bind, Except.bind] at made
    | ok labels =>
      simp only [found, bind, Except.bind] at made
      obtain rfl := Except.ok.inj made
      exact ⟨octets_of_labelsOf? found, rfl⟩
  · rintro ⟨rfl, rfl⟩
    rw [ofLabels?, labelsOf?_of_fits name.fits]
    rfl

theorem ofScan?_eq_ok_iff {labels : List (List UInt8)} {ending : Ending} {name : Name} :
    ofScan? labels ending = .ok name ↔
      name.labels.map Label.octets = labels ∧ ending = .ofName name.absolute := by
  cases ending with
  | relative =>
    rw [ofScan?, ofLabels?_eq_ok_iff]
    cases name.absolute <;> simp [Ending.ofName]
  | absolute =>
    rw [ofScan?, ofLabels?_eq_ok_iff]
    cases name.absolute <;> simp [Ending.ofName]
  | fault error =>
    have failed : ofScan? labels (.fault error) ≠ .ok name := by
      unfold ofScan?
      cases ofLabels? labels false <;> simp [bind, Except.bind, throw, throwThe, MonadExceptOf.throw]
    simp [failed, (Ending.ofName_ne_fault name.absolute error).symm]

/-- One `name` behind another has the `labels` of both; an absolute name stays as it is. -/
theorem append?_eq_ok_iff {name suffix whole : Name} :
    name.append? suffix = .ok whole ↔
      (name.absolute = true ∧ whole = name) ∨
      (name.absolute = false ∧ whole.labels = name.labels ++ suffix.labels ∧
        whole.absolute = suffix.absolute) := by
  unfold append?
  by_cases absolute : name.absolute = true
  · simp [absolute, eq_comm]
  · rw [if_neg absolute]
    by_cases fits : wireSize (name.labels ++ suffix.labels) ≤ 254
    · rw [dif_pos fits, Except.ok.injEq]
      constructor
      · rintro rfl
        exact .inr ⟨by simpa using absolute, rfl, rfl⟩
      · rintro (⟨isAbsolute, -⟩ | ⟨-, labels, same⟩)
        · exact absurd isAbsolute absolute
        · exact eq_of_labels labels.symm same.symm
    · rw [dif_neg fits]
      constructor
      · intro failed
        cases failed
      · rintro (⟨isAbsolute, -⟩ | ⟨-, labels, -⟩)
        · exact absurd isAbsolute absolute
        · exact absurd (labels ▸ whole.fits) fits

/-! ## Texts of names -/

/-- The text `.` is not dotted, because it has an empty label. -/
theorem not_dotted_dot {labels : List (List UInt8)} {absolute : Bool}
    (dotted : Dotted ['.'] labels absolute) : False := by
  have scanned {text : List Char} {label : List UInt8} (signs : Signs text label)
      (some : text ≠ []) {rest : List Char} (whole : text ++ rest = ['.']) : False := by
    cases signs with
    | nil => exact some rfl
    | cons sign _ => cases sign <;> simp_all
  generalize whole : ['.'] = text at dotted
  cases dotted with
  | @last text label signs some =>
    have alone : text ++ [] = ['.'] := by simp [whole]
    exact scanned signs some alone
  | closed signs some => exact scanned signs some whole.symm
  | cons signs some _ => exact scanned signs some whole.symm

/-- A text stands for a name if it is `@` or `.`, or if the labels of the name are written in it. -/
theorem ofText?_eq_ok_iff {text : String} {name : Name} :
    ofText? text = .ok name ↔
      (text = "@" ∧ name = empty) ∨ (text = "." ∧ name = root) ∨
      (text ≠ "@" ∧ Dotted text.toList (name.labels.map Label.octets) name.absolute) := by
  by_cases none : text = "@"
  · subst none
    rw [ofText?, if_pos rfl, Except.ok.injEq]
    simp [eq_comm]
  by_cases top : text = "."
  · subst top
    rw [ofText?, if_neg none, if_pos rfl, Except.ok.injEq]
    have undotted (labels : List (List UInt8)) (absolute : Bool) :
        ¬Dotted ['.'] labels absolute := not_dotted_dot
    simp [undotted, eq_comm]
  · have scanned : ofText? text = ofScan? (scan [] text.toList).1 (scan [] text.toList).2 := by
      rw [ofText?, if_neg none, if_neg top]
    rw [scanned, ofScan?_eq_ok_iff]
    simp only [none, top, false_and, false_or, not_false_eq_true, ne_eq, true_and]
    constructor
    · rintro ⟨labels, ends⟩
      refine dotted_of_scan .nil (Prod.ext labels.symm ends) fun label mem empty => ?_
      obtain ⟨own, _, rfl⟩ := List.mem_map.mp mem
      exact Nat.lt_irrefl 0 (by simpa [empty] using own.nonempty)
    · intro dotted
      -- The labels of a name are within the limits, so scanning does not stop at one of them.
      have short : ∀ label ∈ name.labels.map Label.octets, label.length ≤ 63 := by
        intro label mem
        obtain ⟨own, _, rfl⟩ := List.mem_map.mp mem
        exact own.short
      rw [scan_of_dotted dotted short]
      exact ⟨rfl, rfl⟩

/-- The `labels` of a `Dotted` `text` are not empty. -/
theorem Dotted.filled {text : List Char} {labels : List (List UInt8)} {absolute : Bool}
    (dotted : Dotted text labels absolute) : ∀ label ∈ labels, label ≠ [] := by
  induction dotted with
  | last signs some => simpa using mt signs.eq_nil_iff.mpr some
  | closed signs some => simpa using mt signs.eq_nil_iff.mpr some
  | cons signs some _ ih => exact List.forall_mem_cons.mpr ⟨mt signs.eq_nil_iff.mpr some, ih⟩

/-- The `octets` of `labels`, each behind its `length`, are as many as the labels take in a
message. -/
theorem length_flatMap_octets (labels : List Label) :
    ((labels.map Label.octets).flatMap fun label => UInt8.ofNat label.length :: label).length =
      wireSize labels := by
  induction labels with
  | nil => rfl
  | cons label labels ih =>
    rw [List.map_cons, List.flatMap_cons, List.length_append, ih, wireSize_cons]
    rfl

/-- Octets that are neither empty nor too long are those of `labels`. -/
theorem exists_labels {parts : List (List UInt8)} (filled : ∀ part ∈ parts, part ≠ [])
    (short : ∀ part ∈ parts, part.length ≤ 63) :
    ∃ labels : List Label, labels.map Label.octets = parts := by
  induction parts with
  | nil => exact ⟨[], rfl⟩
  | cons part parts ih =>
    rw [List.forall_mem_cons] at filled short
    obtain ⟨labels, rfl⟩ := ih filled.2 short.2
    exact ⟨⟨part, List.length_pos_iff.mpr filled.1, short.1⟩ :: labels, rfl⟩

/-- The presentation format is decided by `parse?`. By itself a `text` stands for a name if it is
`@`, which is the empty relative name and not a label, if it is `.`, which is the root, or if the
labels of the name are `Dotted` in it. So it stands for some name if its labels keep to the limits.
Below an `origin`, `@` is the origin, and a relative name has the labels of the origin behind its
own. -/
theorem parse_decides (text : String) :
    (∀ name, parse? text none = .ok name ↔
      (text = "@" ∧ name = empty) ∨ (text = "." ∧ name = root) ∨
      (text ≠ "@" ∧ Dotted text.toList (name.labels.map Label.octets) name.absolute)) ∧
    ((∃ name, parse? text none = .ok name) ↔
      text = "@" ∨ text = "." ∨ ∃ labels absolute, Dotted text.toList labels absolute ∧
        (∀ label ∈ labels, label.length ≤ 63) ∧
        (labels.flatMap fun label => UInt8.ofNat label.length :: label).length ≤ 254) ∧
    ∀ origin name, parse? text (some origin) = .ok name ↔
      (text = "@" ∧ name = origin) ∨
      (text ≠ "@" ∧ ∃ own, parse? text none = .ok own ∧
        ((own.absolute = true ∧ name = own) ∨
          (own.absolute = false ∧ name.labels = own.labels ++ origin.labels ∧
            name.absolute = origin.absolute))) := by
  refine ⟨fun name => ofText?_eq_ok_iff, ⟨?_, ?_⟩, fun origin name => ?_⟩
  · rintro ⟨name, read⟩
    rcases ofText?_eq_ok_iff.mp read with ⟨same, -⟩ | ⟨same, -⟩ | ⟨-, dotted⟩
    · exact .inl same
    · exact .inr (.inl same)
    · refine .inr (.inr ⟨_, _, dotted, fun label mem => ?_, ?_⟩)
      · obtain ⟨own, _, rfl⟩ := List.mem_map.mp mem
        exact own.short
      · rw [length_flatMap_octets]
        exact name.fits
  · rintro (same | same | ⟨parts, absolute, dotted, short, fits⟩)
    · exact ⟨empty, ofText?_eq_ok_iff.mpr (.inl ⟨same, rfl⟩)⟩
    · exact ⟨root, ofText?_eq_ok_iff.mpr (.inr (.inl ⟨same, rfl⟩))⟩
    · -- Parts within the limits are labels, and labels within the limit of the whole make a name.
      obtain ⟨labels, rfl⟩ := exists_labels dotted.filled short
      rw [length_flatMap_octets] at fits
      by_cases none : text = "@"
      · exact ⟨empty, ofText?_eq_ok_iff.mpr (.inl ⟨none, rfl⟩)⟩
      · exact ⟨⟨labels, absolute, fits⟩, ofText?_eq_ok_iff.mpr (.inr (.inr ⟨none, dotted⟩))⟩
  · by_cases none : text = "@"
    · simp only [parse?, none, if_true, Except.ok.injEq, true_and, ne_eq, not_true_eq_false,
        false_and, or_false]
      exact eq_comm
    · simp only [parse?, none, if_false, false_and, false_or, not_false_eq_true, ne_eq, true_and]
      cases read : ofText? text with
      | error error => simp [bind, Except.bind]
      | ok own =>
        simp only [bind, Except.bind, Except.ok.injEq, exists_eq_left']
        exact append?_eq_ok_iff

/-- A dot behind a backslash belongs to the label, also at the end of what `parse?` reads. -/
example : (parse? "a\\." none).map absolute = .ok false := rfl

/-! ## Writing names -/

theorem toNat_ofNat {n : Nat} (small : n < 256) : (Char.ofNat n).toNat = n := by
  rw [Char.ofNat, dif_pos (Or.inl (by omega))]
  show (BitVec.ofNatLT n _).toNat = n
  simp

/-- An ASCII character is encoded as its `octet`. -/
theorem utf8EncodeChar_ofNat {octet : UInt8} (ascii : octet.toNat < 128) :
    String.utf8EncodeChar (Char.ofNat octet.toNat) = [octet] := by
  have value : (Char.ofNat octet.toNat).val.toNat = octet.toNat := toNat_ofNat octet.toNat_lt
  unfold String.utf8EncodeChar
  simp only [value]
  rw [if_pos (by omega), UInt8.ofNat_toNat]

theorem toNat_digitChar {value : Nat} (small : value < 10) :
    (digitChar value).toNat = '0'.toNat + value := by
  rw [digitChar, toNat_ofNat]
  show 48 + value < 256
  omega

theorem isDigit_digitChar {value : Nat} (small : value < 10) :
    (digitChar value).isDigit = true := by
  have code : (digitChar value).val.toNat = 48 + value := toNat_digitChar small
  simp only [Char.isDigit, Bool.and_eq_true, decide_eq_true_eq, ge_iff_le,
    UInt32.le_iff_toNat_le, code]
  simp
  omega

/-- The `escapedChars`, which stand behind a backslash, are visible, and no digits. -/
theorem visible_of_mem_escapedChars {c : Char} (special : c ∈ escapedChars) :
    c.isDigit = false ∧ 0x21 ≤ c.toNat ∧ c.toNat ≤ 0x7E := by
  simp only [escapedChars, List.mem_cons, List.not_mem_nil, or_false] at special
  rcases special with rfl | rfl | rfl | rfl | rfl | rfl | rfl | rfl
  all_goals decide

/-- An `octet` is written as one `Sign`. -/
theorem sign_octetText (octet : UInt8) : Sign (octetText octet) [octet] := by
  have character : (Char.ofNat octet.toNat).toNat = octet.toNat := toNat_ofNat octet.toNat_lt
  unfold octetText
  -- As in `octetText`: an octet is written behind a backslash, as it is, or as three digits.
  by_cases special : Char.ofNat octet.toNat ∈ escapedChars
  · obtain ⟨other, -, last⟩ := visible_of_mem_escapedChars special
    have ascii : octet.toNat < 128 := by omega
    rw [if_pos special, ← utf8EncodeChar_ofNat ascii]
    exact .escaped other
  · rw [if_neg special]
    by_cases visible : 0x21 ≤ octet ∧ octet ≤ 0x7E
    · have last : octet.toNat ≤ 126 := UInt8.le_iff_toNat_le.mp visible.2
      have dot : Char.ofNat octet.toNat ≠ '.' := by
        intro same
        rw [same] at special
        exact special (by decide)
      have backslash : Char.ofNat octet.toNat ≠ '\\' := by
        intro same
        rw [same] at special
        exact special (by decide)
      have ascii : octet.toNat < 128 := by omega
      rw [if_pos visible]
      exact utf8EncodeChar_ofNat ascii ▸ Sign.plain dot backslash
    · have bound := octet.toNat_lt
      have hundreds : octet.toNat / 100 < 10 := by omega
      have tens : octet.toNat / 10 % 10 < 10 := by omega
      have ones : octet.toNat % 10 < 10 := by omega
      rw [if_neg visible]
      refine .decimal (isDigit_digitChar hundreds) (isDigit_digitChar tens)
        (isDigit_digitChar ones) ?_
      rw [toNat_digitChar hundreds, toNat_digitChar tens, toNat_digitChar ones]
      omega

/-- An `octet` is written in visible ASCII characters. -/
theorem visible_octetText {octet : UInt8} :
    ∀ c ∈ octetText octet, 0x21 ≤ c.toNat ∧ c.toNat ≤ 0x7E := by
  have character : (Char.ofNat octet.toNat).toNat = octet.toNat := toNat_ofNat octet.toNat_lt
  have backslash : 0x21 ≤ '\\'.toNat ∧ '\\'.toNat ≤ 0x7E := by decide
  have digit {value : Nat} (small : value < 10) :
      0x21 ≤ (digitChar value).toNat ∧ (digitChar value).toNat ≤ 0x7E := by
    rw [toNat_digitChar small]
    show 33 ≤ 48 + value ∧ 48 + value ≤ 126
    omega
  unfold octetText
  by_cases special : Char.ofNat octet.toNat ∈ escapedChars
  · rw [if_pos special]
    simpa [backslash] using (visible_of_mem_escapedChars special).2
  · rw [if_neg special]
    by_cases visible : 0x21 ≤ octet ∧ octet ≤ 0x7E
    · have first : 0x21 ≤ octet.toNat := UInt8.le_iff_toNat_le.mp visible.1
      have last : octet.toNat ≤ 0x7E := UInt8.le_iff_toNat_le.mp visible.2
      rw [if_pos visible, List.forall_mem_singleton, character]
      exact ⟨first, last⟩
    · have bound := octet.toNat_lt
      rw [if_neg visible]
      simp only [List.forall_mem_cons, List.not_mem_nil, false_implies, implies_true, and_true]
      exact ⟨backslash, digit (by omega), digit (by omega), digit (by omega)⟩

/-- No `octet` of a label is written in a way that begins like the text of the empty name. -/
theorem octetText_append_ne (octet : UInt8) (rest : List Char) : octetText octet ++ rest ≠ ['@'] := by
  unfold octetText
  by_cases special : Char.ofNat octet.toNat ∈ escapedChars
  · simp [special]
  · rw [if_neg special]
    by_cases visible : 0x21 ≤ octet ∧ octet ≤ 0x7E
    · rw [if_pos visible]
      intro same
      rw [(List.cons.inj same).1] at special
      exact special (by decide)
    · simp [visible]

theorem signs_flatMap (octets : List UInt8) : Signs (octets.flatMap octetText) octets := by
  induction octets with
  | nil => exact .nil
  | cons octet octets ih => exact .cons (sign_octetText octet) ih

theorem labelText_ne_nil (label : Label) : labelText label ≠ [] :=
  mt (signs_flatMap label.octets).eq_nil_iff.mp (List.length_pos_iff.mp label.nonempty)

theorem labelsText_cons_cons (label next : Label) (labels : List Label) :
    labelsText (label :: next :: labels) =
      labelText label ++ '.' :: labelsText (next :: labels) := by
  rw [labelsText]
  simp

/-- The `labels` are written with dots between them. -/
theorem dotted_labelsText {labels : List Label} (some : labels ≠ []) (absolute : Bool) :
    Dotted (labelsText labels ++ if absolute then ['.'] else []) (labels.map Label.octets)
      absolute := by
  induction labels with
  | nil => exact absurd rfl some
  | cons label rest ih =>
    have signs := signs_flatMap label.octets
    have written := labelText_ne_nil label
    cases rest with
    | nil =>
      cases absolute with
      | false => exact (List.append_nil (labelText label)).symm ▸ .last signs written
      | true => exact .closed signs written
    | cons next rest =>
      have more := ih (List.cons_ne_nil next rest)
      rw [labelsText_cons_cons, List.append_assoc]
      exact .cons signs written more

theorem labelsText_append_ne {labels : List Label} (some : labels ≠ []) (rest : List Char) :
    labelsText labels ++ rest ≠ ['@'] := by
  have front (label : Label) (more : List Char) : labelText label ++ more ≠ ['@'] := by
    obtain ⟨octet, octets, same⟩ := List.exists_cons_of_length_pos label.nonempty
    rw [labelText, same, List.flatMap_cons, List.append_assoc]
    exact octetText_append_ne octet _
  rcases labels with _ | ⟨label, _ | ⟨next, labels⟩⟩
  · exact absurd rfl some
  · exact front label rest
  · rw [labelsText_cons_cons, List.append_assoc]
    exact front label _

theorem ofText?_toText (name : Name) : ofText? name.toText = .ok name := by
  by_cases none : name.labels = []
  · cases absolute : name.absolute with
    | true =>
      have same : name = root := eq_of_labels none absolute
      rw [same]
      exact ofText?_eq_ok_iff.mpr (.inr (.inl ⟨rfl, rfl⟩))
    | false =>
      have same : name = empty := eq_of_labels none absolute
      rw [same]
      exact ofText?_eq_ok_iff.mpr (.inl ⟨rfl, rfl⟩)
  · have chars : name.toText.toList =
        labelsText name.labels ++ if name.absolute then ['.'] else [] := by
      rw [toText, if_neg (by simpa using none), String.toList_ofList]
    refine ofText?_eq_ok_iff.mpr (.inr (.inr ⟨fun same => ?_, ?_⟩))
    · rw [same] at chars
      exact labelsText_append_ne none _ chars.symm
    · rw [chars]
      exact dotted_labelsText none name.absolute

theorem visible_labelsText {labels : List Label} :
    ∀ c ∈ labelsText labels, 0x21 ≤ c.toNat ∧ c.toNat ≤ 0x7E := by
  have label (label : Label) : ∀ c ∈ labelText label, 0x21 ≤ c.toNat ∧ c.toNat ≤ 0x7E := by
    intro c mem
    obtain ⟨octet, _, mem⟩ := List.mem_flatMap.mp mem
    exact visible_octetText c mem
  induction labels with
  | nil => simp [labelsText]
  | cons first rest ih =>
    cases rest with
    | nil => exact label first
    | cons next labels =>
      rw [labelsText_cons_cons]
      intro c mem
      rcases List.mem_append.mp mem with mem | mem
      · exact label first c mem
      · rcases List.mem_cons.mp mem with rfl | mem
        · decide
        · exact ih c mem

theorem visible_toText (name : Name) :
    ∀ c ∈ name.toText.toList, 0x21 ≤ c.toNat ∧ c.toNat ≤ 0x7E := by
  by_cases none : name.labels = []
  · rw [toText, if_pos (by simpa using none)]
    intro c mem
    cases absolute : name.absolute with
    | true =>
      obtain rfl : c = '.' := by simpa [absolute] using mem
      decide
    | false =>
      obtain rfl : c = '@' := by simpa [absolute] using mem
      decide
  · rw [toText, if_neg (by simpa using none), String.toList_ofList]
    intro c mem
    rcases List.mem_append.mp mem with mem | mem
    · exact visible_labelsText c mem
    · cases absolute : name.absolute with
      | true =>
        obtain rfl : c = '.' := by simpa [absolute] using mem
        decide
      | false => simp [absolute] at mem

/-- Writing a name by `toText` and reading it by `parse?` is the identity. The text of a `name` is
read as the same name, with its octets in their case and with the same end; it is made of visible
ASCII characters; and so names with the same text are the same. -/
theorem parse_toText :
    (∀ name : Name, parse? name.toText none = .ok name ∧
      ∀ c ∈ name.toText.toList, 0x21 ≤ c.toNat ∧ c.toNat ≤ 0x7E) ∧
    ∀ a b : Name, a.toText = b.toText → a = b := by
  refine ⟨fun name => ⟨ofText?_toText name, visible_toText name⟩, fun a b same => ?_⟩
  have read := ofText?_toText a
  rw [same, ofText?_toText b] at read
  exact (Except.ok.inj read).symm

/-- A relative name whose octets are all written behind a backslash (`escapedChars`). -/
def escaped : Name :=
  ⟨[⟨[46, 92], by decide, by decide⟩, ⟨[0, 255, 64], by decide, by decide⟩], false, by decide⟩

theorem parse_toText_escaped :
    escaped.toText = "\\.\\\\.\\000\\255\\@" ∧
    parse? "\\.\\\\.\\000\\255\\@" none = .ok escaped ∧ escaped.fold = escaped := by
  have text : escaped.toText = "\\.\\\\.\\000\\255\\@" := by decide
  have same : escaped.fold.toText = escaped.toText := by decide
  exact ⟨text, text ▸ (parse_toText.1 escaped).1, parse_toText.2 _ _ same⟩

end Name

end NameResolution
