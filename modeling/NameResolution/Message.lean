import NameResolution.Header
import NameResolution.Question
import NameResolution.RecordSet

/-!
# Messages

A `Message` is a header with a list of questions and three sections of records.

* `Message.query`, `Message.answerFor`: making messages.
* `Message.decode`, `Message.encode`: messages as octets. What follows the announced records is
  left alone; names are compressed.
* `Message.sets`: the record sets of a section.
* `Message.IsAnswerTo`: being the response to a question.
* `Message.canonicalName?`: the end of the chain of aliases of the answer section.
-/

namespace NameResolution

/-- The record sections of a message. -/
inductive Section
  | answer
  | authority
  | additional
  deriving DecidableEq

/-- A `Message` between resolver and server. -/
structure Message where
  header : Header
  questions : List Question
  answer : List Record
  authority : List Record
  additional : List Record
  deriving DecidableEq

namespace Message

/-- A `Message` without questions and records. -/
def ofHeader (header : Header) : Message := ⟨header, [], [], [], []⟩

/-- A `query` for one `question`. -/
def query (question : Question) (id : UInt16) (recursionDesired : Bool) : Message :=
  { ofHeader ({ Header.empty with id := id }.setRecursionDesired recursionDesired) with
    questions := [question] }

/-- The response to a `query` that says nothing yet. -/
def answerFor (query : Message) : Message :=
  let header := { Header.empty with id := query.header.id }.setResponse true
  { ofHeader (header.setRecursionDesired query.header.recursionDesired) with
    questions := query.questions }

/-- The `records` of a `Section`. -/
def records (message : Message) : Section → List Record
  | .answer => message.answer
  | .authority => message.authority
  | .additional => message.additional

/-- Appends a `record` to a `Section`. -/
def push (message : Message) (place : Section) (record : Record) : Message :=
  match place with
  | .answer => { message with answer := message.answer ++ [record] }
  | .authority => { message with authority := message.authority ++ [record] }
  | .additional => { message with additional := message.additional ++ [record] }

/-- How the server took the query. -/
def rcode (message : Message) : ResponseCode := message.header.rcode

/-- The `message` with its names in small letters. -/
def fold (message : Message) : Message where
  header := message.header
  questions := message.questions.map Question.fold
  answer := message.answer.map Record.fold
  authority := message.authority.map Record.fold
  additional := message.additional.map Record.fold

/-- Messages are equal if they differ at most in the ASCII case of their names, so that `fold` makes
them the same. -/
instance : BEq Message := ⟨fun a b => decide (a.fold = b.fold)⟩

/-! ## Octets -/

/-- Reads a `Message`. -/
def decoder : Decoder Message := do
  let header ← Header.decoder
  let questionCount := (← Decoder.word).toNat
  let answerCount := (← Decoder.word).toNat
  let authorityCount := (← Decoder.word).toNat
  let additionalCount := (← Decoder.word).toNat
  return {
    header := header
    questions := ← Decoder.times Question.decoder questionCount
    answer := ← Decoder.times Record.decoder answerCount
    authority := ← Decoder.times Record.decoder authorityCount
    additional := ← Decoder.times Record.decoder additionalCount }

/-- The `Message` that `octets` stand for. -/
def decode (octets : Octets) : Except DecodeError Message := decoder.decodePrefix octets

/-- Appends the number of entries of a section, `count`. -/
def writeCount (draft : Draft) (count : Nat) : Except Misuse Draft :=
  if count ≤ 0xFFFF then .ok (draft.pushWord (UInt16.ofNat count)) else .error .longSection

/-- Appends a `message`. -/
def write (draft : Draft) (message : Message) : Except Misuse Draft := do
  let draft := draft.push message.header.octets
  let draft ← writeCount draft message.questions.length
  let draft ← writeCount draft message.answer.length
  let draft ← writeCount draft message.authority.length
  let draft ← writeCount draft message.additional.length
  let draft ← message.questions.foldlM Question.write draft
  let draft ← message.answer.foldlM Record.write draft
  let draft ← message.authority.foldlM Record.write draft
  message.additional.foldlM Record.write draft

/-- The `octets` of a `message`. -/
def encode (message : Message) : Except Misuse Octets := Draft.octets <$> message.write .empty

/-! ## Responses -/

/-- The record `sets` of a `Section`. -/
def sets (message : Message) (place : Section) : List RecordSet :=
  RecordSet.group (message.records place)

/-- The `message` is a response with exactly this `question`. -/
def IsAnswerTo (message : Message) (question : Question) : Prop :=
  message.header.isResponse = true ∧ ∃ own, message.questions = [own] ∧ (own == question) = true

instance (message : Message) (question : Question) : Decidable (message.IsAnswerTo question) :=
  match h : message.questions with
  | [own] =>
    if holds : message.header.isResponse = true ∧ (own == question) = true then
      isTrue ⟨holds.1, own, h, holds.2⟩
    else isFalse fun ⟨response, _, eq, same⟩ => holds ⟨response, by simp_all⟩
  | [] => isFalse fun ⟨_, _, eq, _⟩ => by simp_all
  | _ :: _ :: _ => isFalse fun ⟨_, _, eq, _⟩ => by simp_all

/-- The name that the first alias of `name` among `records` leads to. -/
def aliasOf? (records : List Record) (name : Name) : Option Name :=
  records.findSome? fun record =>
    match record.data with
    | .cname target => if record.owner == name then some target else none
    | _ => none

/-- The name reached from `name` by following aliases, unless it takes more than `steps`. -/
def followAliases (records : List Record) : (steps : Nat) → Name → Option Name
  | 0, _ => none
  | steps + 1, name =>
    match aliasOf? records name with
    | some target => followAliases records steps target
    | none => some name

/-- The name that the name of the first question is finally an alias of; none if the aliases go
round in a circle. A chain longer than the answer section visits a record twice. -/
def canonicalName? (message : Message) : Option Name :=
  match message.questions with
  | [] => none
  | question :: _ => followAliases message.answer (message.answer.length + 1) question.name

/-- The answer records of a `type` at a `name`. -/
def answersFor (message : Message) (name : Name) (type : RecordType) : List Record :=
  message.answer.filter fun record => record.owner == name && decide (record.type = type)

/-- A `message` that is no response is a format fault where a response is due. -/
def checkResponse (message : Message) : Except FormFault Unit :=
  if message.header.isResponse then .ok () else .error .notResponse

end Message

end NameResolution
