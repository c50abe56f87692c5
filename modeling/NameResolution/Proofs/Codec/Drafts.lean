import NameResolution.Proofs.Codec.Names

/-!
# Messages in the course of being written

* `Draft.Run`: a draft that octets and names were appended to in any order, from nothing on, and the
  names with the places where they were written. Octets that belong to no name can be overwritten at
  any time, as a length in front of data is.
* `Draft.Settled`: what a run keeps. It speaks of all messages that have the same octets as the
  draft where names were written, so it does not depend on any other octets.
* `Draft.Run.names_read`: every name reads back from where it was written, and every name that is
  remembered from where it is remembered.
-/

namespace NameResolution

/-- How a `Name` is written into a message: with pointers, in full, or in full in small letters. -/
inductive NameForm
  | compressed
  | plain
  | canonical

/-- Appends a `name` in some `form`. -/
def Name.writeAs (name : Name) (form : NameForm) (draft : Draft) : Except Misuse Draft :=
  match form with
  | .compressed => name.write draft
  | .plain => draft.push <$> name.plainOctets
  | .canonical => draft.push <$> name.canonicalOctets

/-- A `Name` that was written, and the place where it stands. -/
structure Written where
  name : Name
  start : Nat
  stop : Nat

/-- Two messages of the same size have the same `octets` where `names` were written. -/
structure SameNames (names : List Written) (octets other : Octets) : Prop where
  size : other.size = octets.size
  same : ∀ entry ∈ names, ∀ place, entry.start ≤ place → place < entry.stop →
    other[place]? = octets[place]?

namespace Draft

/-- A `draft` in the course of being written, and the `names` that were written into it. -/
inductive Run : Draft → List Written → Prop
  | empty : Run .empty []
  | octets {draft : Draft} {names : List Written} (part : Octets) (run : Run draft names) :
    Run (draft.push part) names
  | name {draft next : Draft} {names : List Written} (form : NameForm) (name : Name)
    (run : Run draft names) (wrote : name.writeAs form draft = .ok next) :
    Run next (⟨name, draft.octets.size, next.octets.size⟩ :: names)
  | overwrite {draft : Draft} {names : List Written} (octets : Octets) (run : Run draft names)
    (same : SameNames names draft.octets octets) : Run { draft with octets := octets } names

/-! ## Appending names -/

/-- An absolute `name` can be written in every `form`, and it is spelled where it is written. -/
theorem writes_writeAs {name : Name} (absolute : name.absolute = true) (form : NameForm) :
    Writes (name.writeAs form) name.IsSpelled := by
  have full {labels : List Label} (same : labels.map Label.fold = name.labels.map Label.fold) :
      Writes (fun draft => .ok (draft.push (Name.labelOctets labels).toArray)) name.IsSpelled := by
    refine (Writes.push _).imp fun message start stop ⟨size, _, stands⟩ => ⟨labels, ?_, same⟩
    rw [size, List.size_toArray]
    exact Name.spells_labelOctets stands
  cases form with
  | compressed => exact Name.writes_spelled absolute
  | plain =>
    have octets : name.plainOctets = .ok (Name.labelOctets name.labels).toArray := if_pos absolute
    show Writes (fun draft => draft.push <$> name.plainOctets) _
    rw [octets]
    exact full rfl
  | canonical =>
    have octets : name.canonicalOctets = .ok (Name.labelOctets name.fold.labels).toArray :=
      if_pos absolute
    show Writes (fun draft => draft.push <$> name.canonicalOctets) _
    rw [octets]
    exact full (by simp [Name.fold, Function.comp_def])

/-- Only absolute names can be written, whatever the `form`. -/
theorem absolute_of_writeAs {name : Name} {form : NameForm} {draft next : Draft}
    (wrote : name.writeAs form draft = .ok next) : name.absolute = true := by
  by_contra relative
  cases form
  all_goals
    simp only [Name.writeAs, Name.write, Name.plainOctets, Name.canonicalOctets, if_neg relative]
      at wrote
    cases wrote

/-! ## What a run keeps -/

/-- In every message that has the octets of the `draft` where `names` were written, the names stand
where they were written and where they are remembered. -/
def Settled (draft : Draft) (names : List Written) : Prop :=
  ∀ octets, SameNames names draft.octets octets → draft.known.Sound octets ∧
    ∀ entry ∈ names, entry.name.absolute = true ∧
      entry.name.IsSpelled octets entry.start entry.stop

/-- The front of a message that is as long as the draft with something behind it, and has its
`octets` where `names` were written. -/
theorem SameNames.front {names : List Written} {octets part other : Octets}
    (same : SameNames names (octets ++ part) other) :
    (other.extract 0 octets.size).size = octets.size ∧
      other.extract 0 octets.size ++ other.extract octets.size other.size = other ∧
      SameNames names octets (other.extract 0 octets.size) := by
  have within : octets.size ≤ other.size := by rw [same.size, Array.size_append]; omega
  have size : (other.extract 0 octets.size).size = octets.size := by simp; omega
  refine ⟨size, ?_, size, fun entry mem place start stop => ?_⟩
  · rw [Array.extract_append_extract, Nat.zero_min, Nat.max_eq_right within, Array.extract_size]
  · have here := same.same entry mem place start stop
    by_cases inside : place < octets.size
    · rw [Array.getElem?_append_left inside] at here
      rw [Array.getElem?_extract, if_pos (by omega), Nat.zero_add, here]
    · rw [Array.getElem?_eq_none (by omega), Array.getElem?_eq_none (by omega)]

/-- A message is determined by its front if it has the `octets` of the draft behind it. -/
theorem SameNames.front_append {octets part other : Octets}
    (size : other.size = (octets ++ part).size)
    (same : ∀ place, octets.size ≤ place → place < octets.size + part.size →
      other[place]? = (octets ++ part)[place]?) : other.extract 0 octets.size ++ part = other := by
  rw [Array.size_append] at size
  apply Array.ext_getElem?
  intro place
  by_cases before : place < octets.size
  · rw [Array.getElem?_append_left (by simp; omega), Array.getElem?_extract, if_pos (by omega),
      Nat.zero_add]
  · have front : (other.extract 0 octets.size).size = octets.size := by simp; omega
    rw [Array.getElem?_append_right (by omega), front]
    by_cases inside : place < octets.size + part.size
    · rw [same place (by omega) inside, Array.getElem?_append_right (by omega)]
    · rw [Array.getElem?_eq_none (by omega), Array.getElem?_eq_none (by omega)]

variable {draft next : Draft} {names : List Written}

theorem settled_empty : Settled .empty [] := by
  intro octets _
  exact ⟨Compression.sound_empty octets, by simp⟩

/-- Octets that are appended disturb no names. -/
theorem Settled.push (settled : Settled draft names) (part : Octets) :
    Settled (draft.push part) names := by
  intro octets same
  obtain ⟨-, whole, front⟩ := SameNames.front same
  obtain ⟨sound, spelled⟩ := settled _ front
  rw [← whole]
  refine ⟨sound.append _, fun entry mem => ?_⟩
  obtain ⟨absolute, spelled⟩ := spelled entry mem
  exact ⟨absolute, spelled.append _⟩

/-- A `name` that is appended stands behind the others. -/
theorem Settled.name {name : Name} {form : NameForm} (settled : Settled draft names)
    (wrote : name.writeAs form draft = .ok next) :
    Settled next (⟨name, draft.octets.size, next.octets.size⟩ :: names) := by
  have absolute := absolute_of_writeAs wrote
  have writes := writes_writeAs absolute form
  intro octets same
  have names' : SameNames names next.octets octets :=
    ⟨same.size, fun entry mem => same.same entry (List.mem_cons_of_mem _ mem)⟩
  obtain ⟨part, known, appends, -⟩ := writes draft.octets draft.known
    (settled _ ⟨rfl, fun _ _ _ _ _ => rfl⟩).1
  obtain rfl := Except.ok.inj (wrote.symm.trans (appends draft.octets rfl))
  -- The name is written once more, behind the front of the other message. This appends the same
  -- octets, because what is appended depends on the front only by its size.
  obtain ⟨size, whole, front⟩ := SameNames.front names'
  obtain ⟨sound, old⟩ := settled _ front
  obtain ⟨tail, after, again, kept, spelled⟩ := writes _ draft.known sound
  have both := wrote.symm.trans (again draft.octets size.symm)
  simp only [Except.ok.injEq, Draft.mk.injEq, Array.append_right_inj] at both
  obtain ⟨rfl, rfl⟩ := both
  have behind := SameNames.front_append same.size fun place start stop =>
    same.same _ List.mem_cons_self place start (by simpa using stop)
  rw [behind] at kept
  refine ⟨kept, fun entry mem => ?_⟩
  rcases List.mem_cons.mp mem with rfl | mem
  · refine ⟨absolute, ?_⟩
    have reads := spelled #[]
    rw [behind, Array.append_empty, size] at reads
    simpa using reads
  · obtain ⟨absolute, spelled⟩ := old entry mem
    rw [← whole]
    exact ⟨absolute, spelled.append _⟩

/-- Octets that belong to no name of a `Settled` draft can be overwritten. -/
theorem Settled.overwrite {octets : Octets} (settled : Settled draft names)
    (same : SameNames names draft.octets octets) :
    Settled { draft with octets := octets } names := by
  intro other again
  refine settled other ⟨again.size.trans same.size, fun entry mem place start stop => ?_⟩
  exact (again.same entry mem place start stop).trans (same.same entry mem place start stop)

theorem Run.settled (run : Run draft names) : Settled draft names := by
  induction run with
  | empty => exact settled_empty
  | octets part _ ih => exact ih.push part
  | name form name _ wrote ih => exact ih.name wrote
  | overwrite octets _ same ih => exact ih.overwrite same

/-- Compression is sound in every message that is being written, whatever the `run`. Every name that
was written reads back as an equal name from its `start` up to exactly its `stop`. Every name that
is remembered among the `places` is remembered at a place that a pointer can lead to, and an equal
name reads back from there. And every absolute name can be written next, in every `form`. -/
theorem Run.names_read (run : Run draft names) :
    (∀ entry ∈ names, Name.decoder.Reads (fun read => (read == entry.name) = true) draft.octets
      entry.start entry.stop) ∧
    (∀ name place, (name, place) ∈ draft.known.places → place ≤ 0x3FFF ∧ ∃ next,
      Name.decoder.Reads (fun read => (read == name) = true) draft.octets place next) ∧
    ∀ name form, name.absolute = true → ∃ next, Name.writeAs name form draft = .ok next := by
  obtain ⟨sound, spelled⟩ := run.settled draft.octets ⟨rfl, fun _ _ _ _ _ => rfl⟩
  refine ⟨fun entry mem => ?_, fun name place mem => ?_, fun name form absolute => ?_⟩
  · obtain ⟨absolute, spelled⟩ := spelled entry mem
    exact (spelled.reads absolute).imp fun read => Name.beq_iff.mpr
  · obtain ⟨small, absolute, labels, next, spells, same⟩ := sound _ mem
    have folded : labels.map Label.fold = name.labels.map Label.fold := by
      rw [← same, List.map_map]
      simp [Function.comp_def]
    refine ⟨small, next, ?_⟩
    have spelled : name.IsSpelled draft.octets place next := ⟨labels, spells, folded⟩
    exact (spelled.reads absolute).imp fun read => Name.beq_iff.mpr
  · obtain ⟨tail, after, appends, -⟩ := writes_writeAs absolute form _ _ sound
    exact ⟨_, appends draft.octets rfl⟩

/-- The names `z.`, `b.z.` and `m.Z.`: a zone, a host in it, and a host in the same zone in
capitals. -/
def sampleNames : Name × Name × Name :=
  (⟨[⟨[122], by decide, by decide⟩], true, by decide⟩,
    ⟨[⟨[98], by decide, by decide⟩, ⟨[122], by decide, by decide⟩], true, by decide⟩,
    ⟨[⟨[109], by decide, by decide⟩, ⟨[90], by decide, by decide⟩], true, by decide⟩)

/-- Two of the `sampleNames` share a suffix but for ASCII case, and a length in front of them is
filled in before the second one is written. -/
theorem Run.names_read_shared :
    let (zone, host, mail) := sampleNames
    Run ⟨#[0, 5, 1, 98, 1, 122, 0, 1, 109, 192, 4], ⟨[(mail.fold, 7), (zone, 4), (host, 2)]⟩⟩
        [⟨mail, 7, 11⟩, ⟨host, 2, 7⟩] ∧
      Name.decoder.Reads (fun read => (read == mail) = true)
        #[0, 5, 1, 98, 1, 122, 0, 1, 109, 192, 4] 7 11 := by
  have same : ∀ place < 7, 2 ≤ place →
      (#[0, 5, 1, 98, 1, 122, 0] : Octets)[place]? =
        (#[0, 0, 1, 98, 1, 122, 0] : Octets)[place]? := by
    decide
  have first : Run ⟨#[0, 0, 1, 98, 1, 122, 0], ⟨[(sampleNames.1, 4), (sampleNames.2.1, 2)]⟩⟩
      [⟨sampleNames.2.1, 2, 7⟩] := .name .compressed _ (.octets #[0, 0] .empty) rfl
  have filled := Run.overwrite #[0, 5, 1, 98, 1, 122, 0] first ⟨rfl, by
    intro entry mem place start stop
    obtain rfl := List.mem_singleton.mp mem
    exact same place stop start⟩
  have run := Run.name .compressed sampleNames.2.2 filled rfl
  exact ⟨run, run.names_read.1 _ List.mem_cons_self⟩

end Draft

end NameResolution
