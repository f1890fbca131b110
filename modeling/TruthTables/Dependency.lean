import TruthTables.Ascending
import TruthTables.Position
import TruthTables.Formula.Printer
import TruthTables.Text.Quoted

/-!
# Dependencies — the columns that a column is computed from

    A column of a truth table is the value of a connective, applied to the
    columns of its operands.  An operand that is an atom is found among the
    atom columns by its name; any other operand is found among the
    subformula columns by its identity, not by its shape, so two equal
    subformulas in different places keep their own columns.  Where a name or
    an identity occurs more than once, its last column is meant.
-/

namespace TruthTables

/-- Columns that feed another one, by position. -/
structure Dependencies where
  /-- Positions in the list of atoms. -/
  atoms : List Int
  /-- Positions in the list of subformula columns. -/
  columns : List Int
deriving DecidableEq, Repr

/-- The last place at which an item stands in a list. -/
def lastIndex? {α : Type} [DecidableEq α] (x : α) : List α → Option Nat
  | [] => none
  | y :: ys =>
      match lastIndex? x ys with
      | some k => some (k + 1)
      | none => if x = y then some 0 else none

namespace Formula

/-- The distinct names at the leaves, in ascending order. -/
def atoms (f : Formula) : List String := Ascending.ofList f.leafNames

/-- The atom column that an operand is read from. -/
def atomColumn? (atoms : List String) : Formula → Option Nat
  | .atom name _ => lastIndex? name atoms
  | _ => none

/-- The subformula column that an operand is read from. -/
def subformulaColumn? (columns : List Formula) : Formula → Option Nat
  | .atom .. => none
  | f => lastIndex? f.id (columns.map Formula.id)

/-- The columns that the value of the formula's connective is read from. -/
def dependencies (atoms : List String) (columns : List Formula) (f : Formula) : Dependencies where
  atoms := (Ascending.ofList (f.operands.filterMap (atomColumn? atoms))).map Int.ofNat
  columns := (Ascending.ofList (f.operands.filterMap (subformulaColumn? columns))).map Int.ofNat

end Formula

namespace Dependencies

/-- The columns in words: atoms by name, then subformulas, with "and"
    between the two groups; nothing if there are none. -/
def describe (d : Dependencies) (atoms : List String) (columns : List Formula) :
    Except OutOfRange String := do
  let names ← d.atoms.mapM (itemAt atoms)
  let labels ← d.columns.mapM (itemAt columns)
  let groups := [names, labels.map Formula.unicode].filter fun group => !group.isEmpty
  return " and ".intercalate (groups.map Text.commaSeparated)

end Dependencies

end TruthTables
