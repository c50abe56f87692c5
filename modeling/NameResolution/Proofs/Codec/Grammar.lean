import NameResolution.Proofs.Codec.Names

/-!
# What counts as a name in a message

`Spells` is the grammar of names in messages: labels inside the message, with the root or a pointer
to an earlier place at their end. Reading decides it.

* `readLabels_cases`: what reading has found at a position when it succeeds.
* `Onward`: the place where reading goes on. A label and a pointer back to it make a circle, so
  these places need not come to an end, although every pointer leads backwards.
* `Name.decoder_eq_ok_iff`: reading succeeds with exactly the names that are spelled.
* `Name.decoder_decides`: it fails in all other cases, and also where the places go on for ever.
-/

namespace NameResolution

section Reading

variable {message : Octets} {pos room : Nat}

/-- A `label` that is read stands in the `message`. -/
theorem Label.standAt {label : Label} {first : UInt8} (octet : message[pos]? = some first)
    (length : label.length = first.toNat)
    (octets : label.octets = (message.extract (pos + 1) (pos + 1 + first.toNat)).toList)
    (inside : pos + 1 + first.toNat ≤ message.size) :
    message.StandAt pos label.wireOctets := by
  rw [Label.wireOctets, length, octets, UInt8.ofNat_toNat]
  exact .cons octet (.of_extract inside)

/-- The two octets of a `pointer` stand for the place that it leads to. -/
theorem wordOctets_pointer {first second : UInt8} (pointer : 192 ≤ first.toNat) :
    wordOctets (UInt16.ofNat (0xC000 + ((first.toNat - 192) * 256 + second.toNat))) =
      [first, second] := by
  have high := first.toNat_lt
  have low := second.toNat_lt
  have whole : (UInt16.ofNat (0xC000 + ((first.toNat - 192) * 256 + second.toNat))).toNat =
      first.toNat * 256 + second.toNat := by
    rw [UInt16.toNat_ofNat']
    omega
  rw [wordOctets, whole, show (first.toNat * 256 + second.toNat) / 256 = first.toNat by omega,
    show (first.toNat * 256 + second.toNat) % 256 = second.toNat by omega, UInt8.ofNat_toNat,
    UInt8.ofNat_toNat]

/-- What reading finds at a position: the root, a `label` with more behind it, or a pointer. -/
theorem readLabels_cases {run : LabelRun room} (read : readLabels message pos room = .ok run) :
    (message[pos]? = some 0 ∧ run.labels = [] ∧ run.next = pos + 1) ∨
    (∃ (label : Label) (left : Nat) (rest : LabelRun left), message.StandAt pos label.wireOctets ∧
      left < room ∧ readLabels message (pos + label.wireOctets.length) left = .ok rest ∧
      run.labels = label :: rest.labels ∧ run.next = rest.next) ∨
    ∃ (target : Nat) (rest : LabelRun room), target < 0x4000 ∧
      message.StandAt pos (wordOctets (UInt16.ofNat (0xC000 + target))) ∧ target < pos ∧
      readLabels message target room = .ok rest ∧
      run.labels = rest.labels ∧ run.next = pos + 2 := by
  rw [readLabels] at read
  cases octet : message[pos]? with
  | none => simp [octet] at read
  | some first =>
    simp only [octet] at read
    -- The cases are those of `readLabels`: the root, a label within the room and the message, a
    -- pointer to an earlier place. All others fail.
    by_cases ends : first.toNat = 0
    · rw [dif_pos ends, Except.ok.injEq] at read
      subst read
      exact .inl ⟨congrArg some (UInt8.toNat_inj.mp ends), rfl, rfl⟩
    rw [dif_neg ends] at read
    by_cases normal : first.toNat < 64
    · rw [dif_pos normal] at read
      by_cases fits : first.toNat + 1 ≤ room
      · rw [dif_pos fits] at read
        by_cases inside : pos + 1 + first.toNat ≤ message.size
        · rw [dif_pos inside] at read
          cases found : readLabels message (pos + 1 + first.toNat) (room - (first.toNat + 1)) with
          | error error => simp [found, bind, Except.bind] at read
          | ok rest =>
            rw [found] at read
            have size := length_toList_extract inside
            let label : Label := ⟨_, Nat.lt_of_lt_of_eq (Nat.pos_of_ne_zero ends) size.symm,
              Nat.le_trans (Nat.le_of_eq size) (by omega)⟩
            have labelLength : label.length = first.toNat := size
            obtain rfl : (⟨label :: rest.labels, rest.next, _⟩ : LabelRun room) = run :=
              Except.ok.inj read
            have behind : pos + label.wireOctets.length = pos + 1 + first.toNat := by
              rw [Label.length_wireOctets, labelLength]
              omega
            exact .inr (.inl ⟨label, _, rest, Label.standAt octet size rfl inside, by omega,
              behind ▸ found, rfl, rfl⟩)
        · rw [dif_neg inside] at read
          cases read
      · rw [dif_neg fits] at read
        cases read
    · rw [dif_neg normal] at read
      by_cases pointer : 192 ≤ first.toNat
      · rw [if_pos pointer] at read
        cases other : message[pos + 1]? with
        | none => simp [other] at read
        | some second =>
          simp only [other] at read
          by_cases before : (first.toNat - 192) * 256 + second.toNat < pos
          · rw [if_pos before] at read
            cases found : readLabels message ((first.toNat - 192) * 256 + second.toNat) room with
            | error error => simp [found, bind, Except.bind] at read
            | ok rest =>
              rw [found] at read
              have high := first.toNat_lt
              have low := second.toNat_lt
              obtain rfl : (⟨rest.labels, pos + 2, rest.fits⟩ : LabelRun room) = run :=
                Except.ok.inj read
              refine .inr (.inr ⟨_, rest, by omega, ?_, before, found, rfl, rfl⟩)
              rw [wordOctets_pointer pointer]
              exact .cons octet (.cons other fun _ inside => absurd inside (Nat.not_lt_zero _))
          · rw [if_neg before] at read
            cases read
      · rw [if_neg pointer] at read
        cases read

/-- What is read is spelled in the `message`. -/
theorem spells_of_readLabels {pos room : Nat} {run : LabelRun room}
    (read : readLabels message pos room = .ok run) :
    Spells message pos run.labels run.next := by
  rcases readLabels_cases read with ⟨octet, labels, next⟩ |
    ⟨label, left, rest, stands, fewer, behind, labels, next⟩ |
    ⟨target, rest, small, stands, before, there, labels, next⟩
  · rw [labels, next]
    exact .root octet
  · rw [labels, next]
    exact .label stands (spells_of_readLabels behind)
  · rw [labels, next]
    exact .pointer small stands before (spells_of_readLabels there)
termination_by (room, pos)

/-! ## Going on from place to place -/

/-- Reading a name goes on from the first place of a `message` at the second one: behind a `label`,
or where a `pointer` leads. -/
inductive Onward (message : Octets) : Nat → Nat → Prop
  | label {pos : Nat} {label : Label} : message.StandAt pos label.wireOctets →
      Onward message pos (pos + label.wireOctets.length)
  | pointer {pos target : Nat} : target < 0x4000 →
      message.StandAt pos (wordOctets (UInt16.ofNat (0xC000 + target))) → target < pos →
      Onward message pos target

/-- At most one number stands at the place `pos`. -/
theorem Octets.StandAt.word_unique {value other : UInt16}
    (one : message.StandAt pos (wordOctets value)) (two : message.StandAt pos (wordOctets other)) : value = other := by
  obtain ⟨_, read, rfl⟩ := Decoder.word_of_standAt one
  obtain ⟨_, again, rfl⟩ := Decoder.word_of_standAt two
  rw [read] at again
  exact congrArg Prod.fst (Except.ok.inj again)

/-- A `label` and a pointer differ in their first octets. -/
theorem Label.not_standAt_pointer {label : Label} {target : Nat} (small : target < 0x4000)
    (stands : message.StandAt pos label.wireOctets) :
    ¬message.StandAt pos (wordOctets (UInt16.ofNat (0xC000 + target))) := by
  intro pointer
  have same : UInt8.ofNat label.length = UInt8.ofNat (_ / 256) :=
    Option.some.inj (stands.head.symm.trans pointer.head)
  have length := label.toNat_lengthOctet
  have short : label.length ≤ 63 := label.short
  rw [same] at length
  simp at length
  omega

/-- There is at most one place where reading goes on from `pos`. -/
theorem Onward.unique {first second : Nat} (one : Onward message pos first)
    (other : Onward message pos second) : first = second := by
  cases one with
  | label stands =>
    cases other with
    | label stands' =>
      have same := Option.some.inj (stands.head.symm.trans stands'.head)
      rw [Label.length_wireOctets, Label.length_wireOctets, ← Label.toNat_lengthOctet, same,
        Label.toNat_lengthOctet]
    | pointer small stands' => exact absurd stands' (Label.not_standAt_pointer small stands)
  | pointer small stands =>
    cases other with
    | label stands' => exact absurd stands (Label.not_standAt_pointer small stands')
    | pointer small' stands' =>
      have same := congrArg UInt16.toNat (stands.word_unique stands')
      simp at same
      omega

/-- Reading goes nowhere on behind the root, whose octet is zero. -/
theorem Onward.ne_root {next : Nat} (onward : Onward message pos next) :
    message[pos]? ≠ some 0 := by
  intro root
  cases onward with
  | @label label stands =>
    have same : UInt8.ofNat label.length = 0 := Option.some.inj (stands.head.symm.trans root)
    have length := label.toNat_lengthOctet
    have nonempty : 0 < label.length := label.nonempty
    rw [same] at length
    exact absurd length (Nat.ne_of_lt nonempty)
  | pointer small stands =>
    have same : UInt8.ofNat (_ / 256) = 0 := Option.some.inj (stands.head.symm.trans root)
    have value := congrArg UInt8.toNat same
    simp at value
    omega

/-- A name that stands in a `message` comes to an end. -/
theorem Spells.ends {labels : List Label} {next : Nat} (spells : Spells message pos labels next)
    (places : Nat → Nat) (start : places 0 = pos) :
    ¬∀ i, Onward message (places i) (places (i + 1)) := by
  intro endless
  have onward := endless 0
  induction spells generalizing places with
  | root octet => exact (start ▸ onward).ne_root octet
  | label stands _ ih =>
    have first : places 1 = _ := (start ▸ onward).unique (.label stands)
    exact ih (places <| · + 1) first (fun i => endless (i + 1)) (endless 1)
  | pointer small stands before _ ih =>
    have first : places 1 = _ := (start ▸ onward).unique (.pointer small stands before)
    exact ih (places <| · + 1) first (fun i => endless (i + 1)) (endless 1)

end Reading

namespace Name

/-- Reading finds exactly the names that stand in the `message`. -/
theorem decoder_eq_ok_iff {message : Octets} {pos next : Nat} {name : Name} :
    decoder message pos = .ok (name, next) ↔
      name.absolute = true ∧ Spells message pos name.labels next := by
  constructor
  · intro read
    rw [decoder] at read
    cases found : readLabels message pos 254 with
    | error error => simp [found, bind, Except.bind] at read
    | ok run =>
      have spells := spells_of_readLabels found
      simp only [found, bind, Except.bind, pure, Except.pure, Except.ok.injEq,
        Prod.mk.injEq] at read
      obtain ⟨rfl, rfl⟩ := read
      exact ⟨rfl, spells⟩
  · rintro ⟨absolute, spells⟩
    obtain ⟨_, read, rfl⟩ := reads_of_spells spells name.fits
    rw [read]
    cases name
    simp_all

/-- Reading a name decides the grammar of names, `Spells`. It ends with a `name` and the position
`next` behind it exactly if the grammar spells the labels of the name from `pos` up to there and the
name takes at most 255 octets when it is written in full. It ends with an error in all other cases,
and so it does where labels and pointers lead on for ever (`Onward`). -/
theorem decoder_decides (message : Octets) (pos : Nat) :
    (∀ name next, decoder message pos = .ok (name, next) ↔
      name.absolute = true ∧ Spells message pos name.labels next ∧
        (labelOctets name.labels).length ≤ 255) ∧
    ((∃ error, decoder message pos = .error error) ↔
      ¬∃ labels next, Spells message pos labels next ∧ (labelOctets labels).length ≤ 255) ∧
    ∀ places : Nat → Nat, places 0 = pos → (∀ i, Onward message (places i) (places (i + 1))) →
      ∃ error, decoder message pos = .error error := by
  have short (name : Name) : (labelOctets name.labels).length ≤ 255 := by
    rw [length_labelOctets]
    exact Nat.succ_le_succ name.fits
  -- Reading is total, so that it fails is the same as that it does not succeed.
  have fails : (∃ error, decoder message pos = .error error) ↔
      ¬∃ labels next, Spells message pos labels next ∧ (labelOctets labels).length ≤ 255 := by
    constructor
    · rintro ⟨error, failed⟩ ⟨labels, next, spells, short⟩
      rw [length_labelOctets] at short
      obtain ⟨_, read, -⟩ := reads_of_spells spells (Nat.le_of_succ_le_succ short)
      rw [failed] at read
      cases read
    · intro none
      cases read : decoder message pos with
      | error error => exact ⟨error, rfl⟩
      | ok result =>
        obtain ⟨name, next⟩ := result
        exact absurd ⟨name.labels, next, (decoder_eq_ok_iff.mp read).2, short name⟩ none
  refine ⟨fun name next => ?_, fails, fun places start endless => fails.mpr ?_⟩
  · rw [decoder_eq_ok_iff]
    exact and_congr_right fun _ => (and_iff_left (short name)).symm
  · rintro ⟨labels, next, spells, -⟩
    exact spells.ends places start endless

/-- A label with a pointer back to it behind it is no name, so `decoder` ends with an error. -/
theorem decoder_decides_circle :
    (∀ i, Onward #[1, 97, 192, 0] (2 * (i % 2)) (2 * ((i + 1) % 2))) ∧
      ∃ error, decoder #[1, 97, 192, 0] 0 = .error error := by
  have endless (i : Nat) : Onward #[1, 97, 192, 0] (2 * (i % 2)) (2 * ((i + 1) % 2)) := by
    have label : Octets.StandAt #[1, 97, 192, 0] 0
        (Label.wireOctets ⟨[97], by decide, by decide⟩) := by decide
    have pointer : Octets.StandAt #[1, 97, 192, 0] 2
        (wordOctets (UInt16.ofNat (0xC000 + 0))) := by decide
    rcases Nat.mod_two_eq_zero_or_one i with even | odd
    · rw [even, show (i + 1) % 2 = 1 by omega]
      exact .label label
    · rw [odd, show (i + 1) % 2 = 0 by omega]
      exact .pointer (by decide) pointer (by decide)
  exact ⟨endless, (decoder_decides #[1, 97, 192, 0] 0).2.2 _ rfl endless⟩

end Name

end NameResolution
