/-!
# Query budgets

The queries of one call into a resolver all come out of one `Budget`, which only ever shrinks.
-/

namespace NameResolution

/-- How many queries a call may send, and how many are left. -/
structure Budget where
  total : Nat
  remaining : Nat
  remaining_le : remaining ≤ total := by omega

namespace Budget

/-- A `Budget` of which nothing is used. -/
def full (total : Nat) : Budget := ⟨total, total, Nat.le_refl total⟩

/-- Takes one query out of the `budget`, if one is left. -/
def take? (budget : Budget) : Option Budget :=
  match h : budget.remaining with
  | 0 => none
  | remaining + 1 => some ⟨budget.total, remaining, by have := budget.remaining_le; omega⟩

/-- How many queries were taken out. -/
def used (budget : Budget) : Nat := budget.total - budget.remaining

end Budget

end NameResolution
