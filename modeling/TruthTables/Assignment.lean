import TruthTables.Datum
import TruthTables.Formula

/-!
# Assignments — truth values for atoms, and all of them in order

    An assignment binds names to data, of which only the truth counts.  The
    rows of a truth table are the assignments to its atoms, in the classroom
    order: the first atom varies slowest, and true comes before false.
-/

namespace TruthTables

/-- Names with the data bound to them; the first binding of a name holds. -/
abbrev Assignment := List (String × Datum)

namespace Assignment

/-- The truth of the datum bound to a name, if one is. -/
def truth? (a : Assignment) (name : String) : Option Bool :=
  (a.lookup name).map Datum.truthy

/-- A truth value as the letter that stands for it in a table. -/
def letter (b : Bool) : String := if b then "T" else "F"

/-- The truth of the given names as a string of T and F, or the first name
    that has none. -/
def row (a : Assignment) : List String → Except String String
  | [] => .ok ""
  | name :: names =>
      match a.truth? name with
      | none => .error name
      | some b => do return letter b ++ (← a.row names)

/-- All assignments of truth values to the names, in classroom order. -/
def rows : List String → List Assignment
  | [] => [[]]
  | name :: names =>
      let rest := rows names
      rest.map ((name, .truth true) :: ·) ++ rest.map ((name, .truth false) :: ·)

/-- All assignments to distinct names; names that repeat are refused. -/
def enumerate (names : List String) : Except (List String) (List Assignment) :=
  if names.Nodup then .ok (rows names) else .error names

/-- What is wrong with names that repeat, in words. -/
def repeatedMessage (names : List String) : String :=
  "Atom names must be distinct: " ++ Text.quoteList names

end Assignment

end TruthTables
