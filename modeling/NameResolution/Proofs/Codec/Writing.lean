import Mathlib.Data.List.Forall2
import NameResolution.Proofs.Codec.Spelling

/-!
# Laws of writing

* `Compression.Sound`: the names that a compression knows stand at their places.
* `Writes`: what a writer appends reads in a given way, whatever is written behind it. It depends
  on the octets before it only by their number, and it keeps the compression sound.
  `Writes.bind` puts two writers one behind the other.
-/

namespace NameResolution

/-- What stands in `Octets` between two positions. -/
abbrev Span := Octets → Nat → Nat → Prop

/-- The `first` span and the `second` one behind it. -/
def Span.followedBy (first second : Span) : Span := fun message start stop =>
  ∃ middle, first message start middle ∧ second message middle stop

namespace Compression

/-- A name that is known is absolute and stands at its place. -/
def Stands (octets : Octets) (item : Name × Nat) : Prop :=
  item.2 ≤ lastPlace ∧ item.1.absolute = true ∧ ∃ labels next,
    Spells octets item.2 labels next ∧ labels.map Label.fold = item.1.labels

/-- The names that are `known` stand at their places in the `octets`. -/
def Sound (known : Compression) (octets : Octets) : Prop :=
  ∀ item ∈ known.places, Stands octets item

theorem Stands.append {octets : Octets} {item : Name × Nat} (stands : Stands octets item)
    (tail : Octets) : Stands (octets ++ tail) item := by
  obtain ⟨small, absolute, labels, next, spells, same⟩ := stands
  exact ⟨small, absolute, labels, next, spells.append tail, same⟩

theorem Sound.append {known : Compression} {octets : Octets} (sound : known.Sound octets)
    (tail : Octets) : known.Sound (octets ++ tail) :=
  fun item known => (sound item known).append tail

theorem sound_empty (octets : Octets) : Compression.empty.Sound octets := by
  intro item known
  simp [Compression.empty] at known

/-- A `place` that is found is one that is `known`. -/
theorem mem_of_find? {known : Compression} {name : Name} {place : Nat}
    (found : known.find? name = some place) : (name.fold, place) ∈ known.places := by
  obtain ⟨⟨key, _⟩, first, rfl⟩ := Option.map_eq_some_iff.mp found
  have same := List.find?_some first
  simp only [decide_eq_true_eq] at same
  subst same
  exact List.mem_of_find?_eq_some first

/-- What is remembered by `insert` is a `place` that a pointer can lead to. -/
theorem mem_insert {known : Compression} {name : Name} {place : Nat} {item : Name × Nat}
    (mem : item ∈ (known.insert name place).places) :
    item ∈ known.places ∨ place ≤ lastPlace ∧ item = (name.fold, place) := by
  unfold insert at mem
  split at mem
  · rename_i fits
    rcases List.mem_cons.mp mem with new | old
    · exact .inr ⟨fits.1, new⟩
    · exact .inl old
  · exact .inl mem

end Compression

/-! ## Writers -/

/-- What `write` appends to sound octets reads as `span`, whatever is written behind it. It depends
on the octets before it only by their number. -/
def Writes (write : Draft → Except Misuse Draft) (span : Span) : Prop :=
  ∀ octets known, Compression.Sound known octets → ∃ tail after,
    (∀ before : Octets, before.size = octets.size →
      write ⟨before, known⟩ = .ok ⟨before ++ tail, after⟩) ∧
    after.Sound (octets ++ tail) ∧
    ∀ more, span (octets ++ tail ++ more) octets.size (octets.size + tail.size)

namespace Writes

variable {first second : Draft → Except Misuse Draft} {span more : Span}

theorem imp (writes : Writes first span)
    (weaker : ∀ message start stop, span message start stop → more message start stop) :
    Writes first more := by
  intro octets known sound
  obtain ⟨tail, after, appends, kept, reads⟩ := writes octets known sound
  exact ⟨tail, after, appends, kept, fun rest => weaker _ _ _ (reads rest)⟩

theorem bind (writes : Writes first span) (others : Writes second more) :
    Writes (fun draft => first draft >>= second) (span.followedBy more) := by
  intro octets known sound
  obtain ⟨tail, middle, appends, kept, reads⟩ := writes octets known sound
  obtain ⟨tail', after, appends', kept', reads'⟩ := others (octets ++ tail) middle kept
  refine ⟨tail ++ tail', after, fun before size => ?_, ?_, fun rest => ?_⟩
  · simp only [appends before size]
    show second ⟨before ++ tail, middle⟩ = _
    rw [appends' (before ++ tail) (by simp [size]), Array.append_assoc]
  · rwa [← Array.append_assoc]
  · refine ⟨octets.size + tail.size, ?_, ?_⟩
    · simpa only [Array.append_assoc] using reads (tail' ++ rest)
    · simpa only [Array.append_assoc, Array.size_append, Nat.add_assoc] using reads' rest

/-- A writer that `appends` the same `octets` at every place. -/
theorem ofOctets {part : Octets}
    (appends : ∀ draft : Draft, first draft = .ok { draft with octets := draft.octets ++ part }) :
    Writes first fun message start stop =>
      stop = start + part.size ∧ stop ≤ message.size ∧ message.StandAt start part.toList := by
  intro octets known sound
  refine ⟨part, known, fun before _ => appends _, sound.append part, fun rest => ⟨rfl, ?_, ?_⟩⟩
  · simp only [Array.size_append]
    omega
  · exact (Octets.StandAt.of_append octets part).append_right rest

theorem push (part : Octets) : Writes (fun draft => .ok (draft.push part)) fun message start stop =>
    stop = start + part.size ∧ stop ≤ message.size ∧ message.StandAt start part.toList :=
  ofOctets fun _ => rfl

theorem pushWord (value : UInt16) :
    Writes (fun draft => .ok (draft.pushWord value)) fun message start stop =>
      Decoder.word.Reads (· = value) message start stop ∧ stop = start + 2 :=
  (ofOctets fun _ => rfl).imp fun _ _ _ ⟨stop, _, stands⟩ =>
    ⟨stop ▸ Decoder.word_of_standAt stands, stop⟩

theorem pushLong (value : UInt32) :
    Writes (fun draft => .ok (draft.pushLong value)) fun message start stop =>
      Decoder.long.Reads (· = value) message start stop ∧ stop = start + 4 :=
  (ofOctets fun _ => rfl).imp fun _ _ _ ⟨stop, _, stands⟩ =>
    ⟨stop ▸ Decoder.long_of_standAt stands, stop⟩

/-- Writing `items` one after the other. -/
theorem foldlM {α β : Type} {write : Draft → α → Except Misuse Draft} {decoder : Decoder β}
    {same : α → β → Prop} (items : List α)
    (each : ∀ item ∈ items, Writes (write · item) (decoder.Reads (same item))) :
    Writes (fun draft => items.foldlM write draft)
      ((Decoder.times decoder items.length).Reads (List.Forall₂ same items)) := by
  induction items with
  | nil =>
    intro octets known sound
    refine ⟨#[], known, fun before _ => by simp [pure, Except.pure], sound.append _, fun rest => ?_⟩
    exact .pure .nil
  | cons item items ih =>
    have rest := ih fun other mem => each other (List.mem_cons_of_mem _ mem)
    simp only [List.foldlM_cons]
    refine ((each item List.mem_cons_self).bind rest).imp fun message start stop read => ?_
    obtain ⟨middle, head, tail⟩ := read
    exact head.bind fun value holds => tail.bind fun values all => .pure (.cons holds all)

end Writes

end NameResolution
