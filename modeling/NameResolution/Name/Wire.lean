import NameResolution.Misuse
import NameResolution.Octets

/-!
# Names in messages

In a message each label stands behind its length, and a zero octet ends the name. Instead of the
rest of a name there may be a pointer of two octets to an earlier place where that rest already
stands.

* `Name.decoder`: reads a name. A pointer has to lead to a place before itself, so reading ends.
* `Compression`: where the names of a message stand. Only places that fit into the 14 bits of a
  pointer are kept, and the first place of a name is the one that counts.
* `Draft`: a message that is being written.
* `Name.write`: appends a name, pointing to an earlier place for as much of it as is known.
* `Name.plainOctets`, `Name.canonicalOctets`: a name without pointers, as it is or in small
  letters.
-/

namespace NameResolution

/-! ## Reading -/

/-- Labels that fit into `room` octets, and the position behind them. -/
structure LabelRun (room : Nat) where
  labels : List Label
  next : Nat
  fits : wireSize labels ≤ room

/-- Reads the labels of a name from position `pos`, for which `room` octets are left. -/
def readLabels (message : Octets) (pos room : Nat) : Except DecodeError (LabelRun room) :=
  match message[pos]? with
  | none => .error .shortInput
  | some first =>
    let length := first.toNat
    if ends : length = 0 then .ok ⟨[], pos + 1, by simp⟩
    else if normal : length < 64 then
      if fits : length + 1 ≤ room then
        if inside : pos + 1 + length ≤ message.size then do
          let octets := (message.extract (pos + 1) (pos + 1 + length)).toList
          have size : octets.length = length := length_toList_extract inside
          let label : Label := ⟨octets, by omega, by omega⟩
          have labelLength : label.length = length := size
          let rest ← readLabels message (pos + 1 + length) (room - (length + 1))
          return ⟨label :: rest.labels, rest.next, by
            have := rest.fits
            simp only [wireSize_cons, labelLength]
            omega⟩
        else .error .shortInput
      else .error (.form .longName)
    else if 192 ≤ length then
      match message[pos + 1]? with
      | none => .error .shortInput
      | some second =>
        let target := (length - 192) * 256 + second.toNat
        if target < pos then do
          let rest ← readLabels message target room
          return ⟨rest.labels, pos + 2, rest.fits⟩
        else .error (.form .invalidPointer)
    else .error (.form .invalidLabelType)
  termination_by (room, pos)

/-- Reads a `Name`. -/
def Name.decoder : Decoder Name := fun message pos => do
  let run ← readLabels message pos 254
  return (⟨run.labels, true, run.fits⟩, run.next)

/-! ## Writing -/

/-- Where names stand in a message; names are kept folded. -/
structure Compression where
  places : List (Name × Nat)

namespace Compression

/-- The last place that a pointer can lead to. -/
def lastPlace : Nat := 0x3FFF

/-- No names. -/
def empty : Compression := ⟨[]⟩

/-- The place where `name` stands. -/
def find? (known : Compression) (name : Name) : Option Nat :=
  let key := name.fold
  (known.places.find? (·.1 = key)).map Prod.snd

/-- Remembers that `name` stands at `place`, unless an earlier place is known or no pointer can
lead there. -/
def insert (known : Compression) (name : Name) (place : Nat) : Compression :=
  if place ≤ lastPlace ∧ (known.find? name).isNone then ⟨(name.fold, place) :: known.places⟩
  else known

end Compression

/-- A message that is being written: its octets so far and where its names stand, in a
`Compression`. -/
structure Draft where
  octets : Octets
  known : Compression

namespace Draft

/-- Nothing written yet. -/
def empty : Draft := ⟨#[], .empty⟩

/-- Appends `octets`. -/
def push (draft : Draft) (octets : Octets) : Draft :=
  { draft with octets := draft.octets ++ octets }

/-- Appends the number `value` as two octets. -/
def pushWord (draft : Draft) (value : UInt16) : Draft :=
  { draft with octets := draft.octets.pushWord value }

/-- Appends the number `value` as four octets. -/
def pushLong (draft : Draft) (value : UInt32) : Draft :=
  { draft with octets := draft.octets.pushLong value }

/-- Remembers that `name` begins at the end of what is written. -/
def remember (draft : Draft) (name : Name) : Draft :=
  { draft with known := draft.known.insert name draft.octets.size }

end Draft

/-- A `label` behind its length octet. -/
def Label.wireOctets (label : Label) : List UInt8 := UInt8.ofNat label.length :: label.octets

/-- Writes `labels` and the root, as far as they do not stand in the message already. -/
def writeLabels (draft : Draft) : (labels : List Label) → wireSize labels ≤ 254 → Draft
  | [], _ => draft.push #[0]
  | label :: labels, fits =>
    let name : Name := ⟨label :: labels, true, fits⟩
    match draft.known.find? name with
    | some place => draft.pushWord (UInt16.ofNat (0xC000 + place))
    | none =>
      writeLabels ((draft.remember name).push label.wireOctets.toArray) labels (fits_tail fits)

namespace Name

/-- The octets of the `labels` and of the root behind them. -/
def labelOctets (labels : List Label) : List UInt8 := labels.flatMap Label.wireOctets ++ [0]

/-- Appends the `name` to a message, compressed. -/
def write (draft : Draft) (name : Name) : Except Misuse Draft :=
  if name.absolute then .ok (writeLabels draft name.labels name.fits)
  else .error (.relativeInMessage name)

/-- The `name` in a message without compression. -/
def plainOctets (name : Name) : Except Misuse Octets :=
  if name.absolute then .ok (labelOctets name.labels).toArray
  else .error (.relativeInMessage name)

/-- The `name` in a message in small letters and without compression. -/
def canonicalOctets (name : Name) : Except Misuse Octets :=
  if name.absolute then .ok (labelOctets name.fold.labels).toArray
  else .error (.relativeInMessage name)

end Name

end NameResolution
