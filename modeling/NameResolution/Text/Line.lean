/-!
# Lines and words

* `Text.isBlank`: white space of any script.
* `Text.words`: the words of a text, which have blanks between them.
* `Text.lines`: the lines of a text in octets. A line ends with a line feed, in front of which a
  carriage return may stand. A line that is not proper UTF-8 comes out as nothing.
-/

namespace NameResolution

namespace Text

/-- The characters with the property `White_Space`. -/
def isBlank (c : Char) : Bool :=
  let code := c.toNat
  (0x09 ≤ code ∧ code ≤ 0x0D) ∨ code = 0x20 ∨ code = 0x85 ∨ code = 0xA0 ∨ code = 0x1680 ∨
    (0x2000 ≤ code ∧ code ≤ 0x200A) ∨ code = 0x2028 ∨ code = 0x2029 ∨ code = 0x202F ∨
    code = 0x205F ∨ code = 0x3000

/-- The words of a text behind the letters `word` of a word that has begun. -/
def wordsFrom (word : List Char) : List Char → List String
  | [] => if word.isEmpty then [] else [String.ofList word.reverse]
  | c :: rest =>
    if isBlank c then
      if word.isEmpty then wordsFrom [] rest else String.ofList word.reverse :: wordsFrom [] rest
    else wordsFrom (c :: word) rest

/-- The words of a `text`. -/
def words (text : String) : List String := wordsFrom [] text.toList

/-- The pieces of a list between line feeds, each with whether a line feed ends it. What follows the
last line feed is only a `piece` if there is something. -/
def splitLines (piece : List UInt8) : List UInt8 → List (List UInt8 × Bool)
  | [] => if piece.isEmpty then [] else [(piece.reverse, false)]
  | octet :: rest =>
    if octet = 10 then (piece.reverse, true) :: splitLines [] rest
    else splitLines (octet :: piece) rest

/-- A `piece` without the carriage return that belongs to its line feed. -/
def dropReturn : List UInt8 × Bool → List UInt8
  | (piece, true) => if piece.getLast? = some 13 then piece.dropLast else piece
  | (piece, false) => piece

/-- The `lines` of a text in `octets`; nothing in place of a line that is not proper UTF-8. -/
def lines (octets : List UInt8) : List (Option String) :=
  (splitLines [] octets).map fun piece => String.fromUTF8? ⟨(dropReturn piece).toArray⟩

/-- What is said about a text that is not proper UTF-8. -/
def invalidText : String := "stream did not contain valid UTF-8"

end Text

/-- Why a file of lines was not taken as a whole. -/
inductive FileError
  | malformed
  | invalidText
  deriving DecidableEq

end NameResolution
