/-!
# Ascending lists — finite sets written in order

    A set of names or of positions is kept as the list of its members in
    strictly ascending order, so equal sets are equal lists.
-/

namespace TruthTables.Ascending

variable {α : Type} [LT α] [DecidableLT α] [DecidableEq α]

/-- Adds a member to an ascending list. -/
def insert (x : α) : List α → List α
  | [] => [x]
  | y :: ys => if x < y then x :: y :: ys else if x = y then y :: ys else y :: insert x ys

/-- The members of a list in ascending order, each once. -/
def ofList (xs : List α) : List α := xs.foldr insert []

end TruthTables.Ascending
