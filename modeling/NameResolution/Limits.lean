/-!
# Limits of settings

`Limits` are the default, the least and the greatest value of a setting. A value that is out of
range is replaced by the nearer bound.
-/

namespace NameResolution

/-- The default, the least and the greatest value of a setting of the type `α`. -/
structure Limits (α : Type) where
  default : α
  least : α
  greatest : α

/-- The value within the limits that is nearest to `value`. -/
def Limits.clamp {α : Type} [Min α] [Max α] (limits : Limits α) (value : α) : α :=
  max limits.least (min limits.greatest value)

end NameResolution
