import NameResolution.Name.Wire
import NameResolution.RecordClass
import NameResolution.RecordType

/-!
# Questions

A `Question` asks for the records of a type and class at a name. Questions are equal if their
names differ at most in ASCII case and types and classes are the same.
-/

namespace NameResolution

/-- A request for records. -/
structure Question where
  name : Name
  type : RecordType
  recordClass : RecordClass
  deriving DecidableEq

namespace Question

/-- A `Question` in the Internet class. -/
def internet (name : Name) (type : RecordType) : Question := ⟨name, type, .internet⟩

/-- The `question` with its `name` in small letters. -/
def fold (question : Question) : Question := { question with name := question.name.fold }

instance : BEq Question := ⟨fun a b => decide (a.fold = b.fold)⟩

/-- The text of a `question`. -/
def toText (question : Question) : String :=
  s!"{question.name}\t{question.recordClass}\t{question.type}"

instance : ToString Question := ⟨toText⟩

/-- Reads a `Question`. -/
def decoder : Decoder Question :=
  return ⟨← Name.decoder, ← RecordType.decoder, ← RecordClass.decoder⟩

/-- Appends a `question` to a message. -/
def write (draft : Draft) (question : Question) : Except Misuse Draft := do
  let draft ← question.name.write draft
  return (draft.pushWord question.type.code).pushWord question.recordClass.code

end Question

end NameResolution
