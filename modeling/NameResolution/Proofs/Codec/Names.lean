import NameResolution.Proofs.Codec.Writing

/-!
# Names written and read

* `writeLabels_spec`: what is written for labels spells labels that are the same but for ASCII case.
  While a name is being written, those of its suffixes that are remembered already do not stand in
  the message yet; so only names of at most as many labels are taken to stand at their places.
* `Name.IsSpelled`: the labels of a name stand in a message, the same but for ASCII case.
* `Name.writes`: a compressed name reads back, whatever names were written before it.
* `Name.writes_plain`: so does a name without compression.
-/

namespace NameResolution

/-- Names are the same but for ASCII case if their `labels` are and both are absolute. -/
theorem Name.fold_eq {a b : Name} (absolute : a.absolute = b.absolute)
    (labels : a.labels.map Label.fold = b.labels.map Label.fold) : a.fold = b.fold := by
  unfold fold
  simp [absolute, labels]

/-- The labels of `a` and `b`, which are the same but for ASCII case, take equally many octets. -/
theorem wireSize_eq_of_fold {a b : List Label} (same : a.map Label.fold = b.map Label.fold) :
    wireSize a = wireSize b := by
  rw [← wireSize_fold a, same, wireSize_fold]

section Compressed

variable {octets : Octets} {known : Compression}

/-- A pointer at the end of sound `octets` spells the `name` that stands where it leads. -/
theorem Compression.Stands.spells_pointer {name : Name} {place : Nat}
    (stands : Compression.Stands octets (name, place)) :
    ∃ labels, Spells (octets ++ (wordOctets (UInt16.ofNat (0xC000 + place))).toArray) octets.size
      labels (octets.size + 2) ∧ labels.map Label.fold = name.labels := by
  obtain ⟨small, -, labels, next, spells, same⟩ := stands
  have within : place < octets.size := spells.lt_size
  have pointer := Octets.StandAt.of_append octets
    (wordOctets (UInt16.ofNat (0xC000 + place))).toArray
  exact ⟨labels, .pointer (by unfold lastPlace at small; omega) pointer within (spells.append _),
    same⟩

/-- What is written for `labels` spells them up to ASCII case, and what is remembered along with it
stands at its place. -/
theorem writeLabels_spec (labels : List Label) (fits : wireSize labels ≤ 254)
    (sound : ∀ item ∈ known.places, item.1.labels.length ≤ labels.length →
      Compression.Stands octets item) :
    ∃ tail after,
      (∀ before : Octets, before.size = octets.size →
        writeLabels ⟨before, known⟩ labels fits = ⟨before ++ tail, after⟩) ∧
      (∃ spelled, Spells (octets ++ tail) octets.size spelled (octets.size + tail.size) ∧
        spelled.map Label.fold = labels.map Label.fold) ∧
      ∀ item ∈ after.places, item ∈ known.places ∨ Compression.Stands (octets ++ tail) item := by
  induction labels generalizing octets known with
  | nil =>
    exact ⟨#[0], known, fun _ _ => rfl, ⟨[], .root (by simp), rfl⟩, fun item mem => .inl mem⟩
  | cons label labels ih =>
    let name : Name := ⟨label :: labels, true, fits⟩
    cases found : known.find? name with
    | some place =>
      have stands := sound _ (Compression.mem_of_find? found) (by simp [Name.fold, name])
      obtain ⟨spelled, spells, same⟩ := stands.spells_pointer
      refine ⟨_, known, fun before _ => ?_, ⟨spelled, spells, same⟩, fun item mem => .inl mem⟩
      simp only [writeLabels, name, found] at found ⊢
      rfl
    | none =>
      let part := label.wireOctets.toArray
      -- What is remembered for this name lies behind the octets, but is not used for the labels
      -- that are left: it has more of them.
      have soundNext : ∀ item ∈ (known.insert name octets.size).places,
          item.1.labels.length ≤ labels.length → Compression.Stands (octets ++ part) item := by
        intro item mem short
        rcases Compression.mem_insert mem with old | ⟨_, rfl⟩
        · exact (sound item old (Nat.le_succ_of_le short)).append part
        · simp only [Name.fold, name, List.length_map, List.length_cons] at short
          omega
      obtain ⟨tail, after, writes, ⟨spelled, spells, same⟩, remembered⟩ := ih (fits_tail fits) soundNext
      have stands : (octets ++ (part ++ tail)).StandAt octets.size label.wireOctets := by
        rw [← Array.append_assoc]
        exact (Octets.StandAt.of_append octets part).append_right tail
      -- The label in full, and behind it what has been written for the rest.
      have whole : Spells (octets ++ (part ++ tail)) octets.size (label :: spelled)
          (octets.size + (part ++ tail).size) := by
        refine .label stands ?_
        simpa [part, Array.append_assoc, Nat.add_assoc] using spells
      refine ⟨part ++ tail, after, fun before size => ?_, ⟨_, whole, by simp [same]⟩, ?_⟩
      · rw [writeLabels]
        simp only [name] at found
        simp only [found, Draft.remember, Draft.push]
        rw [size, writes _ (by simp [size, part]), Array.append_assoc]
      · intro item mem
        rw [← Array.append_assoc] at whole ⊢
        rcases remembered item mem with old | new
        · rcases Compression.mem_insert old with old | ⟨small, rfl⟩
          · exact .inl old
          · exact .inr ⟨small, rfl, _, _, whole, by simp [same, Name.fold, name]⟩
        · exact .inr new

end Compressed

namespace Name

/-- The `labels` of the `name` stand in the `message`, the same but for ASCII case. -/
def IsSpelled (name : Name) : Span := fun message start stop =>
  ∃ labels, Spells message start labels stop ∧
    labels.map Label.fold = name.labels.map Label.fold

/-- A `name` that is spelled reads back as the same name but for ASCII case. -/
theorem IsSpelled.reads {name : Name} {message : Octets} {start stop : Nat}
    (spelled : name.IsSpelled message start stop) (absolute : name.absolute = true) :
    Name.decoder.Reads (fun read => read.fold = name.fold) message start stop := by
  obtain ⟨labels, spells, same⟩ := spelled
  have fits : wireSize labels ≤ 254 := wireSize_eq_of_fold same ▸ name.fits
  refine (Name.reads_of_spells spells fits).imp fun read equal => ?_
  subst equal
  exact fold_eq absolute.symm same

theorem IsSpelled.append {name : Name} {message : Octets} {start stop : Nat}
    (spelled : name.IsSpelled message start stop) (tail : Octets) :
    name.IsSpelled (message ++ tail) start stop := by
  obtain ⟨labels, spells, same⟩ := spelled
  exact ⟨labels, spells.append tail, same⟩

/-- A compressed `name` is spelled where it is written. -/
theorem writes_spelled {name : Name} (absolute : name.absolute = true) :
    Writes (fun draft => name.write draft) name.IsSpelled := by
  intro octets known sound
  obtain ⟨tail, after, writes, ⟨labels, spells, same⟩, remembered⟩ :=
    writeLabels_spec name.labels name.fits fun item mem _ => sound item mem
  refine ⟨tail, after, fun before size => ?_, fun item mem => ?_, fun more => ?_⟩
  · show name.write _ = _
    rw [write, if_pos absolute, writes before size]
  · rcases remembered item mem with old | new
    · exact (sound item old).append tail
    · exact new
  · exact IsSpelled.append ⟨labels, spells, same⟩ more

/-- A compressed `name` reads back as the same name but for ASCII case. -/
theorem writes {name : Name} (absolute : name.absolute = true) :
    Writes (fun draft => name.write draft) fun message start stop =>
      Name.decoder.Reads (fun read => read.fold = name.fold) message start stop ∧
        stop ≤ start + 256 := by
  refine (writes_spelled absolute).imp fun message start stop spelled => ?_
  refine ⟨spelled.reads absolute, ?_⟩
  obtain ⟨labels, spells, same⟩ := spelled
  have short := spells.next_le
  have fits := wireSize_eq_of_fold same ▸ name.fits
  omega

theorem labelOctets_cons (label : Label) (labels : List Label) :
    labelOctets (label :: labels) = label.wireOctets ++ labelOctets labels := by
  simp [labelOctets]

@[simp] theorem length_labelOctets (labels : List Label) :
    (labelOctets labels).length = wireSize labels + 1 := by
  induction labels with
  | nil => rfl
  | cons label labels ih =>
    rw [labelOctets_cons, List.length_append, ih, Label.length_wireOctets, wireSize_cons]
    omega

/-- The `labels` that stand in full are spelled. -/
theorem spells_labelOctets {message : Octets} {pos : Nat} {labels : List Label}
    (stands : message.StandAt pos (labelOctets labels)) :
    Spells message pos labels (pos + (labelOctets labels).length) := by
  induction labels generalizing pos with
  | nil => exact .root stands.head
  | cons label labels ih =>
    rw [labelOctets_cons, List.length_append, ← Nat.add_assoc]
    rw [labelOctets_cons] at stands
    exact .label stands.left (ih stands.right)

/-- A `name` without compression reads back as it is. -/
theorem writes_plain {name : Name} (absolute : name.absolute = true) :
    Writes (fun draft => draft.push <$> name.plainOctets) fun message start stop =>
      Name.decoder.Reads (· = name) message start stop ∧ stop ≤ start + 256 := by
  have octets : name.plainOctets = .ok (labelOctets name.labels).toArray := if_pos absolute
  rw [octets]
  refine (Writes.push _).imp fun message start stop ⟨same, _, stands⟩ => ?_
  have spells := spells_labelOctets (by simpa using stands)
  have short := spells.next_le
  have fits := name.fits
  rw [same, List.size_toArray]
  refine ⟨(reads_of_spells spells fits).imp fun read equal => equal.trans ?_, by omega⟩
  cases name
  simpa using absolute.symm

/-- Every `name` that is read is absolute. -/
theorem yields : Decoder.Yields Name.decoder fun name => name.absolute = true := by
  intro message pos name next read
  unfold decoder at read
  cases found : readLabels message pos 254 with
  | error error => simp [found, bind, Except.bind] at read
  | ok run =>
    simp only [found, bind, Except.bind, pure, Except.pure, Except.ok.injEq, Prod.mk.injEq] at read
    rw [← read.1]

end Name

end NameResolution
