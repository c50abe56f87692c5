import NameResolution.Octets

/-!
# Laws of reading

* `Decoder.Reads`: a value with some property stands between two positions of a message.
  `Reads.bind` puts what is read first and what is read next together, so a reader made of steps is
  followed step by step.
* `Decoder.Yields`: every value that a reader can give has some property, whatever the message.
* `Octets.StandAt`: given octets stand at a position of a message.
* `Decoder.word_of_standAt`, `Decoder.long_of_standAt`: numbers read back as they were written.
-/

namespace NameResolution

/-! ## Octets in a message -/

/-- The octets `part` stand in a message from position `pos` on. -/
def Octets.StandAt (message : Octets) (pos : Nat) (part : List UInt8) : Prop :=
  ∀ i (inside : i < part.length), message[pos + i]? = some part[i]

instance (message : Octets) (pos : Nat) (part : List UInt8) :
    Decidable (message.StandAt pos part) :=
  inferInstanceAs (Decidable (∀ i (_ : i < part.length), _))

namespace Octets.StandAt

variable {message : Octets} {pos : Nat} {part more : List UInt8}

theorem append_right (stands : message.StandAt pos part) (tail : Octets) :
    StandAt (message ++ tail) pos part := by
  intro i inside
  have found := stands i inside
  obtain ⟨small, -⟩ := Array.getElem?_eq_some_iff.mp found
  rw [Array.getElem?_append_left small, found]

/-- The `tail` that is appended to the octets `before` stands behind them. -/
theorem of_append (before tail : Octets) : StandAt (before ++ tail) before.size tail.toList := by
  intro i inside
  have small : i < tail.size := by simpa using inside
  rw [Array.getElem?_append_right (by omega), Nat.add_sub_cancel_left,
    Array.getElem?_eq_getElem small, Array.getElem_toList]

theorem left (stands : message.StandAt pos (part ++ more)) : message.StandAt pos part := by
  intro i inside
  have found := stands i (by rw [List.length_append]; omega)
  rwa [List.getElem_append_left inside] at found

theorem right (stands : message.StandAt pos (part ++ more)) :
    message.StandAt (pos + part.length) more := by
  intro i inside
  have found := stands (part.length + i) (by rw [List.length_append]; omega)
  rw [List.getElem_append_right (by omega)] at found
  simpa [Nat.add_assoc] using found

theorem head {octet : UInt8} (stands : message.StandAt pos (octet :: part)) :
    message[pos]? = some octet :=
  stands 0 (by simp)

theorem tail {octet : UInt8} (stands : message.StandAt pos (octet :: part)) :
    message.StandAt (pos + 1) part :=
  @right message pos [octet] part stands

theorem cons {octet : UInt8} (head : message[pos]? = some octet)
    (tail : message.StandAt (pos + 1) part) : message.StandAt pos (octet :: part) := by
  intro i inside
  cases i with
  | zero => simpa using head
  | succ i =>
    rw [← Nat.add_assoc, Nat.add_right_comm]
    simpa using tail i (by simpa using inside)

/-- Octets stand within the `message`. -/
theorem le_size (stands : message.StandAt pos part) (some : part ≠ []) :
    pos + part.length ≤ message.size := by
  have positive : 0 < part.length := List.length_pos_iff.mpr some
  have found := stands (part.length - 1) (by omega)
  obtain ⟨small, -⟩ := Array.getElem?_eq_some_iff.mp found
  omega

/-- Cutting standing octets out of the `message` gives these octets. -/
theorem extract (stands : message.StandAt pos part) :
    (message.extract pos (pos + part.length)).toList = part := by
  by_cases empty : part = []
  · subst empty
    simp
  · have inside := stands.le_size empty
    apply List.ext_getElem
    · exact length_toList_extract inside
    · intro i _ small
      have found := stands i small
      obtain ⟨_, value⟩ := Array.getElem?_eq_some_iff.mp found
      simpa using value

/-- What is cut out of a `message` stands there. -/
theorem of_extract {count : Nat} (inside : pos + count ≤ message.size) :
    message.StandAt pos (message.extract pos (pos + count)).toList := by
  intro i small
  rw [length_toList_extract inside] at small
  rw [Array.getElem?_eq_getElem (by omega)]
  simp

end Octets.StandAt

/-! ## Readers -/

namespace Decoder

variable {α β : Type} {decoder : Decoder α} {message : Octets} {start middle stop pos : Nat}

theorem bind_apply (decoder : Decoder α) (next : α → Decoder β) (message : Octets) (pos : Nat) :
    (decoder >>= next) message pos =
      match decoder message pos with
      | .ok (value, pos) => next value message pos
      | .error error => .error error := by
  show Except.bind (decoder message pos) _ = _
  cases decoder message pos <;> rfl

theorem pure_apply (value : α) (message : Octets) (pos : Nat) :
    (pure value : Decoder α) message pos = .ok (value, pos) := rfl

theorem map_apply (f : α → β) (decoder : Decoder α) (message : Octets) (pos : Nat) :
    (f <$> decoder) message pos =
      (decoder message pos).map fun result => (f result.1, result.2) := by
  show Except.bind (decoder message pos) _ = _
  cases decoder message pos <;> rfl

/-- The reader finds a value with the property `P` between the positions `start` and `stop`. -/
def Reads (decoder : Decoder α) (P : α → Prop) (message : Octets) (start stop : Nat) : Prop :=
  ∃ value, decoder message start = .ok (value, stop) ∧ P value

namespace Reads

variable {P : α → Prop} {Q : β → Prop}

theorem pure {value : α} (holds : P value) : Reads (Pure.pure value) P message pos pos :=
  ⟨value, rfl, holds⟩

theorem bind {next : α → Decoder β} (first : Reads decoder P message start middle)
    (rest : ∀ value, P value → Reads (next value) Q message middle stop) :
    Reads (decoder >>= next) Q message start stop := by
  obtain ⟨value, found, holds⟩ := first
  obtain ⟨result, read, holds⟩ := rest value holds
  exact ⟨result, by rw [bind_apply, found]; exact read, holds⟩

theorem map {f : α → β} (first : Reads decoder P message start stop)
    (image : ∀ value, P value → Q (f value)) : Reads (f <$> decoder) Q message start stop := by
  obtain ⟨value, found, holds⟩ := first
  exact ⟨f value, by rw [map_apply, found]; rfl, image value holds⟩

theorem imp {P' : α → Prop} (read : Reads decoder P message start stop)
    (weaker : ∀ value, P value → P' value) : Reads decoder P' message start stop := by
  obtain ⟨value, found, holds⟩ := read
  exact ⟨value, found, weaker value holds⟩

theorem none : Reads (Decoder.times decoder 0) (· = []) message pos pos := ⟨_, rfl, rfl⟩

theorem single {value : α} (read : Reads decoder (· = value) message start stop) :
    Reads (Decoder.times decoder 1) (· = [value]) message start stop :=
  read.bind fun _ same => ⟨_, rfl, by rw [same]⟩

end Reads

/-- Every value that the reader can give has the property `P`. -/
def Yields (decoder : Decoder α) (P : α → Prop) : Prop :=
  ∀ message pos value next, decoder message pos = .ok (value, next) → P value

namespace Yields

variable {P : α → Prop} {Q : β → Prop}

theorem trivial (decoder : Decoder α) : Yields decoder fun _ => True := fun _ _ _ _ _ => ⟨⟩

theorem pure {value : α} (holds : P value) : Yields (Pure.pure value) P := by
  intro message pos result next read
  rw [pure_apply, Except.ok.injEq, Prod.mk.injEq] at read
  exact read.1 ▸ holds

theorem bind {next : α → Decoder β} (first : Yields decoder P)
    (rest : ∀ value, P value → Yields (next value) Q) : Yields (decoder >>= next) Q := by
  intro message pos result stop read
  rw [bind_apply] at read
  cases found : decoder message pos with
  | error error => simp [found] at read
  | ok pair =>
    rw [found] at read
    exact rest pair.1 (first message pos pair.1 pair.2 found) message pair.2 result stop read

theorem map {f : α → β} (first : Yields decoder P) (image : ∀ value, P value → Q (f value)) :
    Yields (f <$> decoder) Q := by
  intro message pos result next read
  rw [map_apply] at read
  cases found : decoder message pos with
  | error error => simp [found, Except.map] at read
  | ok pair =>
    simp only [found, Except.map, Except.ok.injEq, Prod.mk.injEq] at read
    exact read.1 ▸ image pair.1 (first message pos pair.1 pair.2 found)

/-- A reader that only ever fails with a `fault`, so `P` holds of all that it yields. -/
theorem malformed (fault : FormFault) : Yields (Decoder.malformed fault : Decoder α) P := by
  intro message pos value next read
  simp [Decoder.malformed] at read

theorem times (each : Yields decoder P) (count : Nat) :
    Yields (Decoder.times decoder count) fun values =>
      values.length = count ∧ ∀ value ∈ values, P value := by
  induction count with
  | zero => exact pure ⟨rfl, by simp⟩
  | succ count ih =>
    refine bind each fun first holds => bind ih fun rest known => pure ⟨by simp [known.1], ?_⟩
    rintro value (_ | ⟨_, later⟩)
    · exact holds
    · exact known.2 value later

theorem take (count : Nat) : Yields (Decoder.take count) fun octets => octets.size = count := by
  intro message pos octets next read
  unfold Decoder.take at read
  split at read
  · rename_i inside
    simp only [Except.ok.injEq, Prod.mk.injEq] at read
    rw [← read.1, Array.size_extract]
    omega
  · simp at read

end Yields

/-! ## Positions and numbers -/

theorem position_reads : position.Reads (· = pos) message pos pos := ⟨pos, rfl, rfl⟩

theorem remaining_reads : remaining.Reads (· = message.size - pos) message pos pos := ⟨_, rfl, rfl⟩

theorem octet_of_standAt {octet : UInt8} {part : List UInt8}
    (stands : message.StandAt pos (octet :: part)) :
    Reads Decoder.octet (· = octet) message pos (pos + 1) :=
  ⟨octet, by simp [Decoder.octet, stands.head], rfl⟩

/-- A number of two octets is the `value` that its octets say. -/
theorem word_of_standAt {value : UInt16} (stands : message.StandAt pos (wordOctets value)) :
    Reads word (· = value) message pos (pos + 2) := by
  refine (octet_of_standAt stands).bind fun high same => ?_
  refine (octet_of_standAt stands.tail).bind fun low same' => Reads.pure ?_
  subst same same'
  apply UInt16.toNat_inj.mp
  have bound := value.toNat_lt
  simp
  omega

/-- A number of four octets is the `value` that its octets say. -/
theorem long_of_standAt {value : UInt32} (stands : message.StandAt pos (longOctets value)) :
    Reads long (· = value) message pos (pos + 4) := by
  refine (word_of_standAt stands.left).bind fun high same => ?_
  refine (word_of_standAt stands.right).bind fun low same' => Reads.pure ?_
  subst same same'
  apply UInt32.toNat_inj.mp
  have bound := value.toNat_lt
  simp
  omega

/-- The octets of `part` are taken as they stand. -/
theorem take_of_standAt {part : Octets} (stands : message.StandAt pos part.toList)
    (inside : pos + part.size ≤ message.size) :
    Reads (take part.size) (· = part) message pos (pos + part.size) := by
  refine ⟨part, ?_, rfl⟩
  have cut := stands.extract
  rw [Array.length_toList] at cut
  rw [take, if_pos inside, Array.toList_inj.mp cut]

end Decoder

end NameResolution
