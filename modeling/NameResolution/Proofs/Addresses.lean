import NameResolution.Address
import NameResolution.Proofs.Text.Lines
import NameResolution.Proofs.Text.Numbers

/-!
# Addresses written and read

The text of an address is read as the address, whatever follows that could not be part of it.

* `Text.readIpv4?_toText`: so it is for IPv4 addresses.
* `Text.readGroups_groupChars`: groups with colons between them are read as these groups.
* `Ipv6.eq_of_longestZeros`: the groups of an IPv6 address around the zeros that are left out.
* `Text.readIpv6?_toText`: so the text of an IPv6 address is read as the address, in each of its
  forms.
* `Address.ofText?_toText`, `Endpoint.ofText?_toText`: whole texts. An endpoint is never read as an
  address.
* `Address.isWord_toText`, `Endpoint.isWord_toText`: these texts are single words.
-/

namespace NameResolution

/-! ## IPv4 -/

namespace Ipv4

theorem exists_octets (address : Ipv4) : ∃ a b c d, address = ofOctets a b c d := by
  obtain ⟨⟨⟨items⟩, length⟩⟩ := address
  match items, length with
  | [a, b, c, d], _ => exact ⟨a, b, c, d, rfl⟩

theorem toList_toText (a b c d : UInt8) : (ofOctets a b c d).toText.toList =
    Nat.toDigits 10 a.toNat ++ ('.' :: Nat.toDigits 10 b.toNat ++ ('.' :: Nat.toDigits 10 c.toNat ++
      '.' :: Nat.toDigits 10 d.toNat)) := by
  simp [toText, ofOctets, Text.decimal]

end Ipv4

namespace Text

theorem readOctet?_toDigits {first : Bool} {sign rest : List Char}
    (separated : ∀ text, separator? '.' first (sign ++ text) = some text) (octet : UInt8)
    (ends : NoDigit 10 rest) :
    readOctet? first (sign ++ (Nat.toDigits 10 octet.toNat ++ rest)) = some (octet, rest) := by
  have fits : octetFormat.Admits octet.toNat := by
    refine ⟨Nat.le_of_lt_succ octet.toNat_lt, fun most limit => ?_⟩
    obtain rfl := Option.some.inj limit
    exact ⟨by decide, Nat.lt_of_lt_of_le octet.toNat_lt (by decide)⟩
  have read : leadingNumber? octetFormat (Nat.toDigits 10 octet.toNat ++ rest) =
      some (octet.toNat, rest) := leadingNumber?_toDigits (by decide) (by decide) fits ends
  simp [readOctet?, separated, read]

/-- The text of an IPv4 `address` is read as the address. -/
theorem readIpv4?_toText (address : Ipv4) {rest : List Char} (ends : NoDigit 10 rest) :
    readIpv4? (address.toText.toList ++ rest) = some (address, rest) := by
  obtain ⟨a, b, c, d, rfl⟩ := address.exists_octets
  have first (text : List Char) : separator? '.' true ([] ++ text) = some text := rfl
  have next (text : List Char) : separator? '.' false (['.'] ++ text) = some text := rfl
  have dot (text : List Char) : NoDigit 10 ('.' :: text) := noDigit_cons.mpr rfl
  rw [Ipv4.toList_toText]
  have one := readOctet?_toDigits first a (dot (Nat.toDigits 10 b.toNat ++
    '.' :: (Nat.toDigits 10 c.toNat ++ '.' :: (Nat.toDigits 10 d.toNat ++ rest))))
  have two := readOctet?_toDigits next b (dot (Nat.toDigits 10 c.toNat ++
    '.' :: (Nat.toDigits 10 d.toNat ++ rest)))
  have three := readOctet?_toDigits next c (dot (Nat.toDigits 10 d.toNat ++ rest))
  have four := readOctet?_toDigits next d ends
  simp only [List.nil_append, List.append_assoc, List.cons_append] at *
  simp [readIpv4?, one, two, three, four]

theorem skip?_eq_none {c : Char} {text : List Char} (different : text.head? ≠ some c) :
    skip? c text = none := by
  cases text with
  | nil => rfl
  | cons d rest => exact if_neg fun same => different (by rw [same, List.head?_cons])

theorem rest_of_leadingNumber? {format : NumberFormat} {text : List Char}
    {found : Nat × List Char} (read : leadingNumber? format text = some found) :
    found.2 = (leadingDigits format.radix text).2 := by
  unfold leadingNumber? at read
  dsimp only at read
  split at read
  · cases read
  · exact Option.some.inj read ▸ rfl

/-- A number that no dot follows does not begin an IPv4 address, so `readIpv4?` finds none. -/
theorem readIpv4?_of_not_dotted {text : List Char}
    (other : (leadingDigits 10 text).2.head? ≠ some '.') : readIpv4? text = none := by
  unfold readIpv4?
  cases read : leadingNumber? octetFormat text with
  | none => simp [readOctet?, separator?, read]
  | some found =>
    have first : readOctet? true text = some (UInt8.ofNat found.1, found.2) := by
      simp [readOctet?, separator?, read]
    have second : readOctet? false found.2 = none := by
      have rest : found.2 = (leadingDigits 10 text).2 := rest_of_leadingNumber? read
      simp [readOctet?, separator?, skip?_eq_none, rest, other]
    simp [first, second]

theorem readIpv4?_of_noDigit {text : List Char} (other : NoDigit 10 text) :
    readIpv4? text = none := by
  have none : leadingNumber? octetFormat text = none := leadingNumber?_of_noDigit other
  simp [readIpv4?, readOctet?, separator?, none]

/-! ## IPv6 -/

/-- What stands in front of a group, which is a colon unless the group is the `first` one. -/
def separatorChars (first : Bool) : List Char := if first then [] else [':']

/-- The digits of `groups`, with a colon in front of each but the first one of all. -/
def groupChars (first : Bool) : List UInt16 → List Char
  | [] => []
  | group :: groups =>
    separatorChars first ++ (Nat.toDigits 16 group.toNat ++ groupChars false groups)

/-- Groups end in front of the `rest`, where no digit, no dot, and no colon with a digit behind it
follows. -/
structure EndsGroups (rest : List Char) : Prop where
  noDigit : NoDigit 16 rest
  noDot : rest.head? ≠ some '.'
  noGroup : ∀ more, skip? ':' rest = some more → NoDigit 16 more

theorem separator?_append (first : Bool) (text : List Char) :
    separator? ':' first (separatorChars first ++ text) = some text := by
  cases first <;> rfl

theorem endsGroups_nil : EndsGroups [] where
  noDigit := noDigit_nil 16
  noDot := by simp
  noGroup := fun more skips => nomatch skips

theorem endsGroups_cons {c : Char} (noDigit : digitValue? 16 c = none) (noDot : c ≠ '.')
    (noColon : c ≠ ':') (rest : List Char) : EndsGroups (c :: rest) where
  noDigit := noDigit_cons.mpr noDigit
  noDot := by simpa using noDot
  noGroup := fun more skips => by
    rw [skip?, if_neg (Ne.symm noColon)] at skips
    cases skips

/-- A run of zeros that is left out (`::`) ends the groups in front of it. -/
theorem endsGroups_gap (rest : List Char) : EndsGroups (':' :: ':' :: rest) where
  noDigit := noDigit_cons.mpr rfl
  noDot := by simp
  noGroup := by
    rintro more skips
    obtain rfl := Option.some.inj skips
    exact noDigit_cons.mpr rfl

/-- What follows the digits of a `number` is no digit and no dot. -/
theorem leadingDigits_toDigits {rest : List Char} {number : Nat}
    (noDot : rest.head? ≠ some '.') (ends : NoDigit 16 rest) :
    (leadingDigits 10 (Nat.toDigits 16 number ++ rest)).2.head? ≠ some '.' := by
  have digits (c : Char) (member : c ∈ Nat.toDigits 16 number) : c ≠ '.' := by
    rintro rfl
    obtain ⟨value, digit⟩ := digitValue?_of_mem_toDigits (by decide) (by decide) member
    cases digit
  generalize Nat.toDigits 16 number = front at digits
  induction front with
  | nil =>
    have none : leadingDigits 10 ([] ++ rest) = ([], rest) :=
      leadingDigits_append rfl (ends.of_le (by decide))
    rw [none]
    exact noDot
  | cons c front ih =>
    rw [List.forall_mem_cons] at digits
    rw [List.cons_append, leadingDigits]
    split
    · exact ih digits.2
    · simpa using digits.1

/-- What follows a group are more `groups` or their end. -/
theorem EndsGroups.after {rest : List Char} (ends : EndsGroups rest) (groups : List UInt16) :
    (groupChars false groups ++ rest).head? ≠ some '.' ∧
      NoDigit 16 (groupChars false groups ++ rest) := by
  cases groups with
  | nil => exact ⟨ends.noDot, ends.noDigit⟩
  | cons group groups => exact ⟨by simp [groupChars, separatorChars], noDigit_cons.mpr rfl⟩

/-- The digits of a `group` are read as the group. -/
theorem readGroups_toDigits (room : Nat) (first : Bool) (group : UInt16) {text : List Char}
    (noDot : text.head? ≠ some '.') (noDigit : NoDigit 16 text) :
    readGroups (room + 1) first (separatorChars first ++ (Nat.toDigits 16 group.toNat ++ text)) =
      (group :: (readGroups room false text).1, (readGroups room false text).2) := by
  have embedded : readIpv4? (Nat.toDigits 16 group.toNat ++ text) = none :=
    readIpv4?_of_not_dotted (leadingDigits_toDigits noDot noDigit)
  have admits : groupFormat.Admits group.toNat := by
    refine ⟨Nat.le_of_lt_succ group.toNat_lt, fun most limit => ?_⟩
    obtain rfl := Option.some.inj limit
    exact ⟨by decide, Nat.lt_of_lt_of_le group.toNat_lt (by decide)⟩
  have number : leadingNumber? groupFormat (Nat.toDigits 16 group.toNat ++ text) =
      some (group.toNat, text) := leadingNumber?_toDigits (by decide) (by decide) admits noDigit
  simp only [readGroups, separator?_append, Option.bind_some, embedded, ite_self, number,
    UInt16.ofNat_toNat]

theorem readGroups_of_ends (room : Nat) (first : Bool) {rest : List Char}
    (ends : EndsGroups rest) : readGroups room first rest = ([], false, rest) := by
  cases room with
  | zero => rfl
  | succ room =>
    have other (text : List Char) (separated : separator? ':' first rest = some text) :
        NoDigit 16 text := by
      cases first with
      | true => exact Option.some.inj separated ▸ ends.noDigit
      | false => exact ends.noGroup text separated
    have embedded : (separator? ':' first rest).bind readIpv4? = none :=
      Option.bind_eq_none_iff.mpr fun text separated =>
        readIpv4?_of_noDigit ((other text separated).of_le (by decide))
    have group : (separator? ':' first rest).bind (leadingNumber? groupFormat) = none :=
      Option.bind_eq_none_iff.mpr fun text separated =>
        leadingNumber?_of_noDigit (other text separated)
    simp only [readGroups, embedded, group, ite_self]

/-- What `groupChars` has written is read as the same `groups`. -/
theorem readGroups_groupChars {groups : List UInt16} {room : Nat} (fits : groups.length ≤ room)
    (first : Bool) {rest : List Char} (ends : EndsGroups rest) :
    readGroups room first (groupChars first groups ++ rest) = (groups, false, rest) := by
  induction groups generalizing room first with
  | nil => exact readGroups_of_ends room first ends
  | cons group groups ih =>
    cases room with
    | zero => cases fits
    | succ room =>
      obtain ⟨noDot, noDigit⟩ := ends.after groups
      rw [groupChars, List.append_assoc, List.append_assoc,
        readGroups_toDigits room first group noDot noDigit, ih (Nat.le_of_succ_le_succ fits)]

/-- An IPv4 `address` is read in place of two `groups`. -/
theorem readGroups_ipv4 (room : Nat) (address : Ipv4) {rest : List Char} (ends : NoDigit 10 rest) :
    readGroups (room + 2) false (':' :: (address.toText.toList ++ rest)) =
      (address.groups, true, rest) := by
  have separated : separator? ':' false (':' :: (address.toText.toList ++ rest)) =
      some (address.toText.toList ++ rest) := rfl
  simp only [readGroups, separated, Option.bind_some, readIpv4?_toText address ends,
    Nat.le_add_left, if_true]

end Text

namespace Ipv6

theorem toList_groupsText (groups : List UInt16) :
    (groupsText groups).toList = Text.groupChars true groups := by
  have colon : ":".toList = [':'] := rfl
  have text (group : UInt16) : (Text.hexNumber group.toNat).toList = Nat.toDigits 16 group.toNat :=
    String.toList_ofList
  unfold groupsText
  induction groups with
  | nil => rfl
  | cons group groups ih =>
    cases groups with
    | nil => simp [Text.groupChars, Text.separatorChars, text]
    | cons next groups =>
      rw [List.map_cons] at ih
      rw [List.map_cons, List.map_cons, String.intercalate_cons_cons, String.toList_append,
        String.toList_append, ih, text, colon]
      simp [Text.groupChars, Text.separatorChars]

/-- The `groups` begin with as many zeros as `leadingZeros` counts. -/
theorem eq_of_leadingZeros (groups : List UInt16) :
    leadingZeros groups ≤ groups.length ∧
      groups = List.replicate (leadingZeros groups) 0 ++ groups.drop (leadingZeros groups) := by
  unfold leadingZeros
  induction groups with
  | nil => exact ⟨Nat.le_refl 0, rfl⟩
  | cons group groups ih =>
    obtain ⟨bound, all⟩ := ih
    rw [List.takeWhile_cons]
    split
    · rename_i zero
      obtain rfl : group = 0 := by simpa using zero
      refine ⟨Nat.succ_le_succ bound, ?_⟩
      rw [List.length_cons, List.replicate_succ, List.drop_succ_cons, List.cons_append, ← all]
    · exact ⟨Nat.zero_le _, rfl⟩

/-- The `groups` around the longest run of zeros. -/
theorem eq_of_longestZeros (groups : List UInt16) :
    (longestZeros groups).1 + (longestZeros groups).2 ≤ groups.length ∧
      groups = groups.take (longestZeros groups).1 ++
        List.replicate (longestZeros groups).2 0 ++
        groups.drop ((longestZeros groups).1 + (longestZeros groups).2) := by
  induction groups with
  | nil => exact ⟨Nat.le_refl 0, rfl⟩
  | cons group groups ih =>
    rw [longestZeros]
    dsimp only
    split
    · have here := eq_of_leadingZeros (group :: groups)
      rwa [Nat.zero_add, List.take_zero, List.nil_append]
    · obtain ⟨bound, all⟩ := ih
      refine ⟨?_, ?_⟩
      · rw [List.length_cons]
        omega
      · rw [List.take_succ_cons, Nat.add_right_comm, List.drop_succ_cons, List.cons_append,
          List.cons_append, ← all]

/-- An `address` is put together from its `groups` around zeros. -/
theorem joinGroups_eq {head tail : List UInt16} {address : Ipv6}
    (whole : head ++ List.replicate (8 - head.length - tail.length) 0 ++ tail =
      address.groups.toList) : Text.joinGroups head tail = address := by
  obtain ⟨groups⟩ := address
  rw [Text.joinGroups, Ipv6.mk.injEq]
  dsimp only at whole ⊢
  rw [whole]
  ext i inside
  simp

/-- An `address` that stands for an IPv4 address ends in this address. -/
theorem groups_of_mapped? {address : Ipv6} {mapped : Ipv4}
    (stands : address.mapped? = some mapped) :
    address.groups.toList = [0, 0, 0, 0, 0, 0xFFFF] ++ mapped.groups := by
  have group (value : UInt16) : UInt16.ofNat ((UInt8.ofNat (value.toNat / 256)).toNat * 256 +
      (UInt8.ofNat (value.toNat % 256)).toNat) = value := by
    have bound : value.toNat < 65536 := value.toNat_lt
    have high : (UInt8.ofNat (value.toNat / 256)).toNat = value.toNat / 256 :=
      Nat.mod_eq_of_lt (by omega)
    have low : (UInt8.ofNat (value.toNat % 256)).toNat = value.toNat % 256 :=
      Nat.mod_eq_of_lt (by omega)
    rw [high, low, Nat.div_add_mod', UInt16.ofNat_toNat]
  unfold mapped? at stands
  split at stands
  · rename_i high low groups
    obtain rfl := Option.some.inj stands
    rw [groups]
    exact congrArg₂ (fun first second => [0, 0, 0, 0, 0, 0xFFFF, first, second])
      (group high).symm (group low).symm
  · cases stands

end Ipv6

namespace Text

/-- Groups with a gap between them are read as the `address` that has zeros there. -/
theorem readIpv6?_gap {address : Ipv6} {head tail : List UInt16}
    (whole : head ++ List.replicate (8 - head.length - tail.length) 0 ++ tail =
      address.groups.toList) (gap : head.length < 8) {text rest : List Char} {embedded : Bool}
    (more : readGroups (7 - head.length) true text = (tail, embedded, rest)) :
    readIpv6? (groupChars true head ++ ':' :: ':' :: text) = some (address, rest) := by
  have first : readGroups 8 true (groupChars true head ++ ':' :: ':' :: text) =
      (head, false, ':' :: ':' :: text) :=
    readGroups_groupChars (Nat.le_of_lt gap) true (endsGroups_gap text)
  simp [readIpv6?, first, Nat.ne_of_lt gap, skip?, more, Ipv6.joinGroups_eq whole]

/-- An IPv4 `address` behind the groups that say so is read as the address that stands for it. -/
theorem readIpv6?_mapped {address : Ipv6} {mapped : Ipv4} (stands : address.mapped? = some mapped)
    {rest : List Char} (ends : EndsGroups rest) :
    readIpv6? (("::ffff:" ++ mapped.toText).toList ++ rest) = some (address, rest) := by
  have front : "::ffff:".toList =
      [':', ':'] ++ Nat.toDigits 16 (0xFFFF : UInt16).toNat ++ [':'] := by decide
  have more : readGroups 7 true (Nat.toDigits 16 (0xFFFF : UInt16).toNat ++
      ':' :: (mapped.toText.toList ++ rest)) = (0xFFFF :: mapped.groups, true, rest) := by
    have colon : NoDigit 16 (':' :: (mapped.toText.toList ++ rest)) := noDigit_cons.mpr rfl
    have read := readGroups_toDigits 6 true 0xFFFF (by simp) colon
    rwa [readGroups_ipv4 4 mapped (ends.noDigit.of_le (by decide))] at read
  have whole : [] ++ List.replicate (8 - ([] : List UInt16).length -
      (0xFFFF :: mapped.groups).length) 0 ++ 0xFFFF :: mapped.groups = address.groups.toList := by
    rw [Ipv6.groups_of_mapped? stands]
    rfl
  have read := readIpv6?_gap whole (Nat.succ_pos 7) more
  rw [String.toList_append, front]
  simpa [groupChars] using read

/-- Groups around zeros that are left out are read as the `address`. -/
theorem readIpv6?_zeros {address : Ipv6} {start run : Nat}
    (bound : start + run ≤ address.groups.toList.length)
    (all : address.groups.toList = address.groups.toList.take start ++ List.replicate run 0 ++
      address.groups.toList.drop (start + run)) (long : 0 < run) {rest : List Char}
    (ends : EndsGroups rest) :
    readIpv6? (groupChars true (address.groups.toList.take start) ++ ':' :: ':' ::
      (groupChars true (address.groups.toList.drop (start + run)) ++ rest)) =
        some (address, rest) := by
  have length : address.groups.toList.length = 8 := Vector.length_toList
  have headLength : (address.groups.toList.take start).length = start := by
    rw [List.length_take]
    omega
  have tailLength : (address.groups.toList.drop (start + run)).length = 8 - (start + run) := by
    rw [List.length_drop, length]
  generalize address.groups.toList.take start = head at all headLength ⊢
  generalize address.groups.toList.drop (start + run) = tail at all tailLength ⊢
  have zeros : 8 - head.length - tail.length = run := by omega
  have whole : head ++ List.replicate (8 - head.length - tail.length) 0 ++ tail =
      address.groups.toList := by rw [zeros, all]
  have fits : tail.length ≤ 7 - head.length := by omega
  exact readIpv6?_gap whole (by omega) (readGroups_groupChars fits true ends)

/-- The text of an IPv6 `address` is read as the address. -/
theorem readIpv6?_toText (address : Ipv6) {rest : List Char} (ends : EndsGroups rest) :
    readIpv6? (address.toText.toList ++ rest) = some (address, rest) := by
  unfold Ipv6.toText
  cases stands : address.mapped? with
  | some mapped => exact readIpv6?_mapped stands ends
  | none =>
    -- What is needed of the longest run of zeros: it lies within the groups, and all groups in it
    -- are zero.
    obtain ⟨bound, all⟩ := Ipv6.eq_of_longestZeros address.groups.toList
    dsimp only
    generalize Ipv6.longestZeros address.groups.toList = zeros at bound all
    obtain ⟨start, run⟩ := zeros
    dsimp only at bound all ⊢
    split
    · rename_i long
      have read := readIpv6?_zeros bound all (by omega) ends
      have colons : "::".toList = [':', ':'] := rfl
      simpa [Ipv6.toList_groupsText, colons] using read
    · -- No run is longer than one group, so all eight groups are written.
      have length : address.groups.toList.length = 8 := Vector.length_toList
      have all : readGroups 8 true (groupChars true address.groups.toList ++ rest) =
          (address.groups.toList, false, rest) :=
        readGroups_groupChars (Nat.le_of_eq length) true ends
      have whole : Text.joinGroups address.groups.toList [] = address :=
        Ipv6.joinGroups_eq (by simp)
      rw [Ipv6.toList_groupsText]
      simp [readIpv6?, all, whole]

/-- Written `groups` do not begin with an IPv4 address. -/
theorem readIpv4?_groupChars (groups : List UInt16) {rest : List Char} (ends : EndsGroups rest) :
    readIpv4? (groupChars true groups ++ rest) = none := by
  cases groups with
  | nil => exact readIpv4?_of_noDigit (ends.noDigit.of_le (by decide))
  | cons group groups =>
    obtain ⟨noDot, noDigit⟩ := ends.after groups
    rw [groupChars, List.append_assoc, List.append_assoc]
    exact readIpv4?_of_not_dotted (leadingDigits_toDigits noDot noDigit)

end Text

/-- The text of an IPv6 `address` begins with `groups`. -/
theorem Ipv6.exists_groupChars (address : Ipv6) : ∃ groups rest,
    Text.EndsGroups rest ∧ address.toText.toList = Text.groupChars true groups ++ rest := by
  unfold toText
  split
  · rename_i mapped _
    have front : "::ffff:".toList = ':' :: ':' :: "ffff:".toList := by decide
    exact ⟨[], _, Text.endsGroups_gap ("ffff:".toList ++ mapped.toText.toList), by
      rw [String.toList_append, front]
      rfl⟩
  · dsimp only
    split
    · generalize longestZeros address.groups.toList = run
      have colons : "::".toList = [':', ':'] := rfl
      refine ⟨address.groups.toList.take run.1, _, Text.endsGroups_gap
        (groupsText (address.groups.toList.drop (run.1 + run.2))).toList, ?_⟩
      simp [toList_groupsText, colons]
    · exact ⟨_, [], Text.endsGroups_nil, by rw [toList_groupsText, List.append_nil]⟩

/-! ## Whole texts -/

namespace Text

theorem readPort?_toDigits (port : UInt16) :
    readPort? (':' :: Nat.toDigits 10 port.toNat) = some (port, []) := by
  have fits : portFormat.Admits port.toNat :=
    ⟨Nat.le_of_lt_succ port.toNat_lt, fun most limit => absurd limit (Option.not_mem_none most)⟩
  have read : leadingNumber? portFormat (Nat.toDigits 10 port.toNat ++ []) =
      some (port.toNat, []) := leadingNumber?_toDigits (by decide) (by decide) fits (noDigit_nil 10)
  rw [List.append_nil] at read
  simp [readPort?, skip?, read]

/-- What is written for a `scope`. -/
def scopeChars (scope : UInt32) : List Char :=
  if scope = 0 then [] else '%' :: Nat.toDigits 10 scope.toNat

theorem readScope_scopeChars (scope : UInt32) {rest : List Char} (ends : NoDigit 10 rest)
    (noScope : rest.head? ≠ some '%') : readScope (scopeChars scope ++ rest) = (scope, rest) := by
  unfold scopeChars
  split
  · rename_i none
    simp [readScope, skip?_eq_none noScope, none]
  · have fits : scopeFormat.Admits scope.toNat :=
      ⟨Nat.le_of_lt_succ scope.toNat_lt, fun most limit => absurd limit (Option.not_mem_none most)⟩
    have read : leadingNumber? scopeFormat (Nat.toDigits 10 scope.toNat ++ rest) =
        some (scope.toNat, rest) := leadingNumber?_toDigits (by decide) (by decide) fits ends
    simp [readScope, skip?, read]

/-- The address of an endpoint ends where its `scope` or the bracket stands. -/
theorem endsGroups_scope (scope : UInt32) (rest : List Char) :
    EndsGroups (scopeChars scope ++ ']' :: rest) := by
  unfold scopeChars
  split
  · exact endsGroups_cons rfl (by decide) (by decide) _
  · exact endsGroups_cons rfl (by decide) (by decide) _

end Text

/-- The text of an `address` is read as the address. -/
theorem Address.ofText?_toText (address : Address) : ofText? address.toText = some address := by
  cases address with
  | v4 address =>
    have read := Text.readIpv4?_toText address (Text.noDigit_nil 10)
    rw [List.append_nil] at read
    simp [ofText?, toText, read, Text.whole?]
  | v6 address =>
    obtain ⟨groups, rest, ends, text⟩ := address.exists_groupChars
    have other : Text.readIpv4? address.toText.toList = none := by
      rw [text, Text.readIpv4?_groupChars groups ends]
    have read := Text.readIpv6?_toText address Text.endsGroups_nil
    rw [List.append_nil] at read
    simp [ofText?, toText, other, Ipv6.ofText?, read, Text.whole?]

namespace Endpoint

theorem toList_toText_v4 (address : Ipv4) (port : UInt16) : (v4 address port).toText.toList =
    address.toText.toList ++ ':' :: Nat.toDigits 10 port.toNat := by
  have colon : ":".toList = [':'] := rfl
  simp [toText, colon, Text.decimal]

theorem toList_toText_v6 (address : Ipv6) (port : UInt16) (scope : UInt32) :
    (v6 address port scope).toText.toList = '[' :: (address.toText.toList ++
      (Text.scopeChars scope ++ ']' :: ':' :: Nat.toDigits 10 port.toNat)) := by
  have bracket : "[".toList = ['['] := rfl
  have percent : "%".toList = ['%'] := rfl
  have ending : "]:".toList = [']', ':'] := rfl
  by_cases none : scope = 0 <;>
    simp [toText, Text.scopeChars, none, bracket, percent, ending, Text.decimal]

/-- The text of an `Endpoint` is read as the endpoint. -/
theorem ofText?_toText (server : Endpoint) : ofText? server.toText = some server := by
  cases server with
  | v4 address port =>
    have read := Text.readIpv4?_toText address
      (Text.noDigit_cons.mpr rfl : Text.NoDigit 10 (':' :: Nat.toDigits 10 port.toNat))
    simp [ofText?, toList_toText_v4, Text.readEndpoint4?, read, Text.readPort?_toDigits,
      Text.whole?]
  | v6 address port scope =>
    have other (text : List Char) : Text.readIpv4? ('[' :: text) = none :=
      Text.readIpv4?_of_noDigit (Text.noDigit_cons.mpr rfl)
    have front := Text.readIpv6?_toText address
      (Text.endsGroups_scope scope (':' :: Nat.toDigits 10 port.toNat))
    have middle := Text.readScope_scopeChars scope
      (Text.noDigit_cons.mpr rfl : Text.NoDigit 10 (']' :: ':' :: Nat.toDigits 10 port.toNat))
      (by simp)
    simp [ofText?, toList_toText_v6, Text.readEndpoint4?, other, Text.readEndpoint6?, Text.skip?,
      front, middle, Text.readPort?_toDigits, Text.whole?]

/-- The text of an `Endpoint` is not the text of an `Address`. -/
theorem address_ofText?_toText (server : Endpoint) : Address.ofText? server.toText = none := by
  cases server with
  | v4 address port =>
    have read := Text.readIpv4?_toText address
      (Text.noDigit_cons.mpr rfl : Text.NoDigit 10 (':' :: Nat.toDigits 10 port.toNat))
    simp [Address.ofText?, toList_toText_v4, read, Text.whole?]
  | v6 address port scope =>
    have other (text : List Char) : Text.readIpv4? ('[' :: text) = none :=
      Text.readIpv4?_of_noDigit (Text.noDigit_cons.mpr rfl)
    have ends (text : List Char) : Text.EndsGroups ('[' :: text) :=
      Text.endsGroups_cons rfl (by decide) (by decide) text
    have none (text : List Char) : Text.readIpv6? ('[' :: text) = none := by
      simp [Text.readIpv6?, Text.readGroups_of_ends 8 true (ends text), Text.skip?]
    simp [Address.ofText?, toList_toText_v6, other, Ipv6.ofText?, none, Text.whole?]

end Endpoint

/-! ## Words -/

namespace Text

theorem solid_toDigits {radix : Nat} (least : 1 < radix) (most : radix ≤ 16) (number : Nat) :
    Solid (Nat.toDigits radix number) := by
  intro c member
  obtain ⟨value, digit⟩ := digitValue?_of_mem_toDigits least most member
  have between {d e : Char} (least : 0x21 ≤ d.toNat) (most : e.toNat ≤ 0x7E)
      (range : d ≤ c ∧ c ≤ e) : 0x21 ≤ c.toNat ∧ c.toNat ≤ 0x7E :=
    ⟨Nat.le_trans least range.1, Nat.le_trans range.2 most⟩
  simp only [digitValue?, Option.filter_eq_some_iff] at digit
  refine isBlank_of_visible ?_
  split_ifs at digit with decimal lower upper
  · exact between (by decide) (by decide) decimal
  · exact between (by decide) (by decide) lower
  · exact between (by decide) (by decide) upper
  · cases digit.1

theorem solid_groupChars (first : Bool) (groups : List UInt16) :
    Solid (groupChars first groups) := by
  induction groups generalizing first with
  | nil => exact solid_nil
  | cons group groups ih =>
    have separator : Solid (separatorChars first) := by
      cases first <;> simp [separatorChars, isBlank]
    simp [groupChars, separator, solid_toDigits, ih]

end Text

theorem Ipv4.solid_toText (address : Ipv4) : Text.Solid address.toText.toList := by
  obtain ⟨a, b, c, d, rfl⟩ := address.exists_octets
  have dot : Text.isBlank '.' = false := rfl
  simp [toList_toText, Text.solid_toDigits, dot]

theorem Ipv6.solid_toText (address : Ipv6) : Text.Solid address.toText.toList := by
  have colon : Text.isBlank ':' = false := rfl
  unfold toText
  split
  · rename_i mapped _
    have letter : Text.isBlank 'f' = false := rfl
    simpa [colon, letter] using mapped.solid_toText
  · dsimp only
    split <;> simp [toList_groupsText, Text.solid_groupChars, colon]

theorem Address.isWord_toText (address : Address) : Text.IsWord address.toText where
  filled := fun empty => by
    have read := address.ofText?_toText
    rw [empty] at read
    cases read
  solid := by
    cases address with
    | v4 address => exact address.solid_toText
    | v6 address => exact address.solid_toText

theorem Endpoint.isWord_toText (server : Endpoint) : Text.IsWord server.toText where
  filled := fun empty => by
    have read := server.ofText?_toText
    rw [empty] at read
    cases read
  solid := by
    cases server with
    | v4 address port =>
      have colon : Text.isBlank ':' = false := rfl
      simp [toList_toText_v4, address.solid_toText, Text.solid_toDigits, colon]
    | v6 address port scope =>
      have colon : Text.isBlank ':' = false := rfl
      have bracket : Text.isBlank '[' = false ∧ Text.isBlank ']' = false := ⟨rfl, rfl⟩
      have scope : Text.Solid (Text.scopeChars scope) := by
        have percent : Text.isBlank '%' = false := rfl
        unfold Text.scopeChars
        split <;> simp [Text.solid_toDigits, percent]
      simp [toList_toText_v6, address.solid_toText, Text.solid_toDigits, colon, bracket, scope]

end NameResolution
