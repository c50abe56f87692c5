/-!
# Credibility

How far data can be trusted depends on where it was found: in which section of a response, and
whether the server spoke for the zone. Levels are totally ordered, and data is only ever replaced
by data of the same or a higher level. Hints and glue only occur in the cache of delegations,
where nothing else does.
-/

namespace NameResolution

/-- How far data can be trusted, from the lowest to the highest level. -/
inductive Credibility
  | nonAuthAdditional
  | nonAuthAnswer
  | additional
  | nonAuthAuthority
  | authAnswer
  | authAuthority
  | glue
  | hint
  deriving DecidableEq, Repr

namespace Credibility

/-- The position of a level in the order, from the lowest to the highest. -/
def level : Credibility → Nat
  | nonAuthAdditional => 0
  | nonAuthAnswer => 1
  | additional => 2
  | nonAuthAuthority => 3
  | authAnswer => 4
  | authAuthority => 5
  | glue => 6
  | hint => 7

instance : LE Credibility := ⟨fun a b => a.level ≤ b.level⟩
instance : LT Credibility := ⟨fun a b => a.level < b.level⟩
instance (a b : Credibility) : Decidable (a ≤ b) := inferInstanceAs (Decidable (a.level ≤ b.level))
instance (a b : Credibility) : Decidable (a < b) := inferInstanceAs (Decidable (a.level < b.level))
instance : Ord Credibility := ⟨fun a b => compare a.level b.level⟩

/-- The least `Credibility` of data that may be part of an answer. -/
def normal : Credibility := nonAuthAnswer

/-- The `Credibility` of an answer section. -/
def ofAnswer (authoritative : Bool) : Credibility :=
  if authoritative then authAnswer else nonAuthAnswer

/-- The `Credibility` of an authority section. -/
def ofAuthority (authoritative : Bool) : Credibility :=
  if authoritative then authAuthority else nonAuthAuthority

/-- The `Credibility` of an additional section. -/
def ofAdditional (authoritative : Bool) : Credibility :=
  if authoritative then additional else nonAuthAdditional

/-- All levels from the lowest to the highest. -/
def all : List Credibility :=
  [nonAuthAdditional, nonAuthAnswer, additional, nonAuthAuthority, authAnswer, authAuthority, glue,
    hint]

/-- The text of a level. -/
def toText : Credibility → String
  | nonAuthAdditional => "non-auth-additional"
  | nonAuthAnswer => "non-auth-answer"
  | additional => "additional"
  | nonAuthAuthority => "non-auth-authority"
  | authAnswer => "auth-answer"
  | authAuthority => "auth-authority"
  | glue => "glue"
  | hint => "hint"

instance : ToString Credibility := ⟨toText⟩

/-- The `level` that a `text` stands for. -/
def ofText? (text : String) : Option Credibility := all.find? fun level => level.toText == text

end Credibility

end NameResolution
