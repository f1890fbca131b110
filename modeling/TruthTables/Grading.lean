import TruthTables.Table

/-!
# Grading — a learner's column against the true one

    A column of guesses is graded cell by cell.  A cell is missing when
    nothing was entered, correct when the entry agrees with the true value,
    and incorrect otherwise.  The column is complete when every cell is
    correct.
-/

namespace TruthTables

/-- The grade of one cell. -/
inductive Feedback where
  | correct
  | incorrect
  | missing
deriving DecidableEq, Repr

namespace Feedback

/-- The grade of a guess, given the true value. -/
def grade (guess : Datum) (actual : Bool) : Feedback :=
  if guess.isNull then .missing else if guess.agrees actual then .correct else .incorrect

/-- The initial of a grade. -/
def initial : Feedback → Char
  | .correct => 'C'
  | .incorrect => 'I'
  | .missing => 'M'

/-- The grade with the given initial. -/
def ofInitial? : Char → Option Feedback
  | 'C' => some .correct
  | 'I' => some .incorrect
  | 'M' => some .missing
  | _ => none

end Feedback

/-- The grades of one column. -/
structure Report where
  column : Int
  /-- The grades, row by row. -/
  feedback : List Feedback
deriving DecidableEq, Repr

namespace Report

/-- The number of correct cells. -/
def correct (r : Report) : Nat := r.feedback.count .correct

/-- The number of incorrect cells. -/
def incorrect (r : Report) : Nat := r.feedback.count .incorrect

/-- The number of missing cells. -/
def missing (r : Report) : Nat := r.feedback.count .missing

/-- Whether no cell is incorrect or missing. -/
def isComplete (r : Report) : Bool := r.incorrect = 0 && r.missing = 0

end Report

/-- Why a column cannot be graded. -/
inductive GradeError where
  | noColumn (column : Int) (columns : Nat)
  | rowCount (rows guesses : Nat)
deriving DecidableEq, Repr

/-- The cause in words. -/
def GradeError.message : GradeError → String
  | .noColumn column columns =>
      "Column " ++ toString column ++ " out of range (0.." ++ toString ((columns : Int) - 1) ++ ")"
  | .rowCount rows guesses =>
      "Expected " ++ toString rows ++ " guesses, got " ++ toString guesses

namespace Table

/-- Grades the guesses for a column, which needs one guess for each row. -/
def grade (t : Table) (column : Int) (guesses : List Datum) : Except GradeError Report :=
  if ¬(0 ≤ column ∧ column < t.columns.length) then
    .error (.noColumn column t.columns.length)
  else if guesses.length ≠ t.rows.length then
    .error (.rowCount t.rows.length guesses.length)
  else
    .ok ⟨column, List.zipWith Feedback.grade guesses (t.columnValues column.toNat)⟩

end Table

end TruthTables
