import TruthTables.Formula.Parser
import TruthTables.Formula.Printer
import TruthTables.Spelling

/-!
# Loaded formulas — a text read, printed back, and compared

    A learner's text is accepted whenever it spells a formula.  If its
    spelling, blanks apart, differs from the canonical one, then it left out
    parentheses or had too many, and the learner is warned that the formula
    was put right.
-/

namespace TruthTables

/-- What a learner is told whose text is not canonical. -/
def grammarWarning : String := "THIS IS UNGRAMMATICAL. I AM FIXING IT."

namespace Formula

/-- Whether a text differs from the canonical text of the formula in more
    than blanks and the choice of spellings. -/
def departs (raw : String) (f : Formula) : Bool :=
  Spelling.normalize raw ≠ Spelling.normalize f.ascii

end Formula

/-- A formula ready for use. -/
structure Loaded where
  root : Formula
  /-- The canonical text in mathematical notation. -/
  canonical : String
  /-- Whether the text that it was read from was not canonical. -/
  warns : Bool
deriving DecidableEq, Repr

namespace Loaded

/-- Reads a text. -/
def ofText (text : String) : Except ReadError Loaded := do
  let root ← Formula.ofText text
  return ⟨root, root.unicode, root.departs text⟩

/-- A formula that was not read from a text, and so departs from none. -/
def ofFormula (root : Formula) : Loaded := ⟨root, root.unicode, false⟩

end Loaded

end TruthTables
