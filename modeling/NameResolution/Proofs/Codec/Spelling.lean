import NameResolution.Name.Wire
import NameResolution.Proofs.Codec.Reading

/-!
# Names that stand in a message

* `Spells`: labels stand in a message from a position on, with the root or a pointer at their end.
  A pointer leads to a place before itself.
* `Spells.append`: what is appended to a message changes none of its names.
* `readLabels_of_spells`, `Name.reads_of_spells`: reading finds the labels that stand there,
  provided that they fit into a name.
-/

namespace NameResolution

/-- The `labels` stand in the `message` from the first position on, up to the second one. -/
inductive Spells (message : Octets) : Nat → List Label → Nat → Prop
  | root {pos : Nat} : message[pos]? = some 0 → Spells message pos [] (pos + 1)
  | label {pos next : Nat} {label : Label} {labels : List Label} :
      message.StandAt pos label.wireOctets →
      Spells message (pos + label.wireOctets.length) labels next →
      Spells message pos (label :: labels) next
  | pointer {pos target next : Nat} {labels : List Label} :
      target < 0x4000 → message.StandAt pos (wordOctets (UInt16.ofNat (0xC000 + target))) →
      target < pos → Spells message target labels next → Spells message pos labels (pos + 2)

/-- What is appended to a `message` changes none of its names. -/
theorem Spells.append {message : Octets} {pos next : Nat} {labels : List Label}
    (spells : Spells message pos labels next) (tail : Octets) :
    Spells (message ++ tail) pos labels next := by
  induction spells with
  | root octet =>
    obtain ⟨small, -⟩ := Array.getElem?_eq_some_iff.mp octet
    exact .root (by rw [Array.getElem?_append_left small, octet])
  | label stands _ ih => exact .label (stands.append_right tail) ih
  | pointer small stands before _ ih => exact .pointer small (stands.append_right tail) before ih

/-- A name begins within the `message`. -/
theorem Spells.lt_size {message : Octets} {pos next : Nat} {labels : List Label}
    (spells : Spells message pos labels next) : pos < message.size := by
  have within {octet : UInt8} (found : message[pos]? = some octet) : pos < message.size :=
    (Array.getElem?_eq_some_iff.mp found).1
  cases spells with
  | root octet => exact within octet
  | label stands _ => exact within stands.head
  | pointer _ stands _ _ => exact within stands.head

/-- A name takes hardly more octets than its `labels`, and fewer if a pointer stands for some of
them. -/
theorem Spells.next_le {message : Octets} {pos next : Nat} {labels : List Label}
    (spells : Spells message pos labels next) : next ≤ pos + wireSize labels + 2 := by
  induction spells with
  | root _ => omega
  | label _ _ ih =>
    simp only [wireSize_cons, Label.wireOctets, List.length_cons, Label.length] at ih ⊢
    omega
  | pointer _ _ _ _ _ => omega

@[simp] theorem Label.length_wireOctets (label : Label) :
    label.wireOctets.length = label.length + 1 := by
  simp [wireOctets, length]

/-- The length octet of a `label` is its `length`, which is that of no pointer and no root. -/
theorem Label.toNat_lengthOctet (label : Label) :
    (UInt8.ofNat label.length).toNat = label.length := by
  have short := label.short
  rw [UInt8.toNat_ofNat']
  exact Nat.mod_eq_of_lt (by unfold length; omega)

section Reading

variable {message : Octets} {pos next room : Nat}

/-- Labels are equal if their `octets` are. -/
theorem Label.eq_of_octets {a b : Label} (same : a.octets = b.octets) : a = b := by
  cases a
  cases b
  simpa using same

/-- Reading goes on behind a `label` that stands in the `message`. -/
theorem readLabels_of_label {label : Label} (stands : message.StandAt pos label.wireOctets)
    (fits : label.length + 1 ≤ room) {rest : LabelRun (room - (label.length + 1))}
    (read : readLabels message (pos + 1 + label.length) (room - (label.length + 1)) = .ok rest) :
    ∃ run : LabelRun room, readLabels message pos room = .ok run ∧
      run.labels = label :: rest.labels ∧ run.next = rest.next := by
  have nonempty : 0 < label.length := label.nonempty
  have short : label.length ≤ 63 := label.short
  have first := stands.head
  have announced := label.toNat_lengthOctet
  have inside := stands.le_size (by simp [Label.wireOctets])
  have cut : (message.extract (pos + 1) (pos + 1 + label.length)).toList = label.octets :=
    stands.tail.extract
  rw [Label.length_wireOctets] at inside
  generalize UInt8.ofNat label.length = octet at first announced
  generalize label.length = length at *
  subst announced
  rw [readLabels]
  simp only [first]
  rw [dif_neg (by omega), dif_pos (by omega), dif_pos fits, dif_pos (by omega), read]
  exact ⟨_, rfl, congrArg (· :: _) (Label.eq_of_octets cut), rfl⟩

/-- Reading follows a pointer at `pos` that leads to a `target` before itself. -/
theorem readLabels_of_pointer {target : Nat} (small : target < 0x4000)
    (stands : message.StandAt pos (wordOctets (UInt16.ofNat (0xC000 + target))))
    (before : target < pos) {rest : LabelRun room}
    (read : readLabels message target room = .ok rest) :
    readLabels message pos room = .ok ⟨rest.labels, pos + 2, rest.fits⟩ := by
  have high := stands.head
  have low := stands.tail.head
  have whole : (UInt16.ofNat (0xC000 + target)).toNat = 0xC000 + target := by simp; omega
  rw [whole] at high low
  have highOctet : (UInt8.ofNat ((0xC000 + target) / 256)).toNat = 192 + target / 256 := by
    simp
    omega
  have lowOctet : (UInt8.ofNat ((0xC000 + target) % 256)).toNat = target % 256 := by
    simp
    omega
  have place : (192 + target / 256 - 192) * 256 + target % 256 = target := by omega
  rw [readLabels]
  simp only [high, low, highOctet, lowOctet, place]
  rw [dif_neg (by omega), dif_neg (by omega), if_pos (by omega), if_pos before, read]
  rfl

/-- Reading finds the `labels` that stand in the `message` if there is `room` for them. -/
theorem readLabels_of_spells {labels : List Label} (spells : Spells message pos labels next)
    (fits : wireSize labels ≤ room) :
    ∃ run : LabelRun room, readLabels message pos room = .ok run ∧ run.labels = labels ∧
      run.next = next := by
  induction spells generalizing room with
  | root octet =>
    refine ⟨⟨[], _, by simp⟩, ?_, rfl, rfl⟩
    rw [readLabels]
    simp [octet]
  | label stands _ ih =>
    rw [wireSize_cons] at fits
    rw [Label.length_wireOctets, Nat.add_comm _ 1, ← Nat.add_assoc] at ih
    obtain ⟨rest, read, sameLabels, sameNext⟩ := ih (Nat.le_sub_of_add_le' fits)
    obtain ⟨run, read, runLabels, runNext⟩ :=
      readLabels_of_label stands (Nat.le_of_add_right_le fits) read
    exact ⟨run, read, runLabels.trans (congrArg (_ :: ·) sameLabels), runNext.trans sameNext⟩
  | pointer small stands before _ ih =>
    obtain ⟨rest, read, sameLabels, -⟩ := ih fits
    exact ⟨_, readLabels_of_pointer small stands before read, sameLabels, rfl⟩

/-- Reading finds the name that stands in the `message`. -/
theorem Name.reads_of_spells {labels : List Label} (spells : Spells message pos labels next)
    (fits : wireSize labels ≤ 254) :
    Name.decoder.Reads (· = ⟨labels, true, fits⟩) message pos next := by
  obtain ⟨⟨_, _, _⟩, read, rfl, rfl⟩ := readLabels_of_spells spells fits
  exact ⟨_, by rw [Name.decoder, read]; rfl, rfl⟩

end Reading

end NameResolution
