import TruthTables.Dependency
import TruthTables.Formula.Evaluation

/-!
# Truth tables — all values of a formula and of its parts

    The table of a formula has a column for each of its atoms, in ascending
    order, and a column for each non-atomic subformula, in post-order, so
    that every column stands to the right of the columns it is computed
    from.  Its rows are all assignments to the atoms, in classroom order.
-/

namespace TruthTables

/-- What a formula is across all rows. -/
inductive Classification where
  | tautology
  | contradiction
  | contingent
deriving DecidableEq, Repr

namespace Classification

/-- The classification of a column of truth values. -/
def ofValues (values : List Bool) : Classification :=
  if values.all (· = true) then .tautology
  else if values.all (· = false) then .contradiction
  else .contingent

/-- The classification as one word. -/
def word : Classification → String
  | .tautology => "tautology"
  | .contradiction => "contradiction"
  | .contingent => "contingent"

/-- The classification as it ends a sentence. -/
def phrase : Classification → String
  | .tautology => "a tautology"
  | .contradiction => "a contradiction"
  | .contingent => "contingent"

/-- The classification as a headline. -/
def headline : Classification → String
  | .tautology => "TAUTOLOGY"
  | .contradiction => "CONTRADICTION"
  | .contingent => "CONTINGENT"

end Classification

/-- Why a formula has no table. -/
inductive TableError where
  | repeated (names : List String)
  | missing (e : MissingAtom)
deriving DecidableEq, Repr

/-- The cause in words. -/
def TableError.message : TableError → String
  | .repeated names => Assignment.repeatedMessage names
  | .missing e => e.message

/-- The truth table of a formula. -/
structure Table where
  root : Formula
  atoms : List String
  rows : List Assignment
  columns : List Formula
  /-- The values of each column, row by row. -/
  values : List (List Bool)
  /-- The values of the whole formula, row by row. -/
  final : List Bool

namespace Table

/-- The values of a formula in each of the rows. -/
def valuesOf (rows : List Assignment) (f : Formula) : Except TableError (List Bool) :=
  rows.mapM fun row => (f.eval row).mapError .missing

/-- The table of a formula. -/
def ofFormula (root : Formula) : Except TableError Table := do
  let rows ← (Assignment.enumerate root.atoms).mapError .repeated
  let values ← root.subformulas.mapM (valuesOf rows)
  let final ← valuesOf rows root
  return ⟨root, root.atoms, rows, root.subformulas, values, final⟩

/-- What the formula is across all rows. -/
def classify (t : Table) : Classification := .ofValues t.final

/-- The heading of a column. -/
def label (t : Table) (column : Int) : Except OutOfRange String := do
  return (← itemAt t.columns column).unicode

/-- The columns that a column is computed from, in words. -/
def describe (t : Table) (column : Int) : Except OutOfRange String := do
  ((← itemAt t.columns column).dependencies t.atoms t.columns).describe t.atoms t.columns

/-- The values of a column, none if there is no such column. -/
def columnValues (t : Table) (column : Nat) : List Bool := t.values[column]?.getD []

/-! ## The table as lines of text -/

/-- A cell in the middle of a field of the given width.  Padding that does
    not divide evenly leaves the odd space on the left if the width is odd,
    and on the right if it is even. -/
def center (width : Nat) (cell : String) : String :=
  let pad := width - cell.length
  let left := pad / 2 + if pad % 2 = 1 ∧ width % 2 = 1 then 1 else 0
  String.ofList
    (List.replicate left ' ' ++ cell.toList ++ List.replicate (pad - left) ' ')

/-- Cells side by side, each in the middle of its field. -/
def line (widths : List Nat) (cells : List String) : String :=
  " | ".intercalate (List.zipWith center widths cells)

/-- The line under the headings. -/
def rule (widths : List Nat) : String :=
  "-+-".intercalate (widths.map fun w => String.ofList (List.replicate w '-'))

/-- The headings: the atoms by name, the subformulas as `heading` prints
    them. -/
def headings (t : Table) (heading : Formula → String) : List String :=
  t.atoms ++ t.columns.map heading

/-- The widths of the fields: as wide as the headings, and never empty. -/
def widths (t : Table) (heading : Formula → String) : List Nat :=
  (t.headings heading).map fun h => max h.length 1

/-- The letters of a row: the values of the atoms, then those of the columns. -/
def cells (t : Table) (r : Nat) (row : Assignment) : List String :=
  row.map (fun (_, d) => Assignment.letter d.truthy) ++
    t.values.map fun column => Assignment.letter (column[r]?.getD false)

/-- The table as lines of one length, the headings first. -/
def lines (t : Table) (heading : Formula → String) : List String :=
  let ws := t.widths heading
  line ws (t.headings heading) :: rule ws ::
    t.rows.zipIdx.map fun (row, r) => line ws (t.cells r row)

end Table

end TruthTables
