import TruthTables.Grading
import TruthTables.Loaded

/-!
# Exercises — a truth table filled in column by column

    A learner fills the subformula columns from left to right.  Only the
    active column takes guesses, and only until it is correct.  A check
    grades it, and when every cell is correct it closes the column and opens
    the next one.  With the last column the exercise is finished, and the
    learner is told what the formula is across all rows.
-/

namespace TruthTables

/-- Whether a column has been completed. -/
inductive Status where
  | pending
  | correct
deriving DecidableEq, Repr

/-- The state of an exercise. -/
structure Exercise where
  loaded : Loaded
  table : Table
  /-- The guesses of each column, row by row; a null is a blank cell. -/
  guesses : List (List Datum)
  /-- The status of each column. -/
  status : List Status
  /-- The column that takes guesses. -/
  active : Nat

namespace Exercise

/-- A new exercise: every cell blank, the first column active. -/
def start (loaded : Loaded) : Except TableError Exercise := do
  let table ← Table.ofFormula loaded.root
  let columns := table.columns.length
  return {
    loaded, table
    guesses := List.replicate columns (List.replicate table.rows.length .null)
    status := List.replicate columns .pending
    active := 0 }

/-- Whether every column has been completed. -/
def isFinished (e : Exercise) : Bool := e.status.all (· = .correct)

/-- Whether a column takes guesses. -/
def canEdit (e : Exercise) (column : Int) : Bool :=
  column = e.active && e.status[e.active]? = some .pending

/-- The guesses of the active column. -/
def activeGuesses (e : Exercise) : List Datum := e.guesses[e.active]?.getD []

/-- The exercise with other guesses in the active column. -/
def withActiveGuesses (e : Exercise) (guesses : List Datum) : Exercise :=
  { e with guesses := e.guesses.set e.active guesses }

/-- Enters a guess.  Answers whether the column takes guesses; if it does
    not, nothing changes. -/
def setGuess (e : Exercise) (column row : Int) (guess : Datum) :
    Except OutOfRange (Bool × Exercise) :=
  if e.canEdit column then do
    return (true, e.withActiveGuesses (← replaceAt e.activeGuesses row guess))
  else .ok (false, e)

/-- Rotates a cell.  Answers whether the column takes guesses; if it does
    not, nothing changes. -/
def toggleGuess (e : Exercise) (column row : Int) : Except OutOfRange (Bool × Exercise) :=
  if e.canEdit column then do
    let guess ← itemAt e.activeGuesses row
    return (true, e.withActiveGuesses (← replaceAt e.activeGuesses row guess.cycle))
  else .ok (false, e)

/-- Enters guesses from the first row downward, with the answer for each.
    A guess beyond the last row ends it; those before it stay. -/
def fillFrom (e : Exercise) (column : Int) (row : Nat) :
    List Datum → Exercise × Except OutOfRange (List Bool)
  | [] => (e, .ok [])
  | guess :: guesses =>
      match e.setGuess column row guess with
      | .error err => (e, .error err)
      | .ok (answer, e') =>
          let (e'', answers) := e'.fillFrom column (row + 1) guesses
          (e'', answers.map (answer :: ·))

/-- Closes the active column and opens the next one, if there is one. -/
def advance (e : Exercise) : Exercise :=
  { e with
    status := e.status.set e.active .correct
    active := if e.active + 1 < e.status.length then e.active + 1 else e.active }

/-- Grades the active column and closes it if it is complete.  There is
    nothing to check once the exercise is finished. -/
def check (e : Exercise) : Except GradeError (Option Report × Exercise) :=
  if e.isFinished then .ok (none, e)
  else do
    let report ← e.table.grade e.active e.activeGuesses
    return (some report, if report.isComplete then e.advance else e)

/-- The columns that the active column is computed from, in words; nothing
    once the exercise is finished. -/
def activeDependencies (e : Exercise) : Except OutOfRange String :=
  if e.isFinished then .ok "" else e.table.describe e.active

/-- A report in words: the counts, and what to do next.  The report of the
    last column, when complete, says what the formula is. -/
def summarize (e : Exercise) (r : Report) : Except OutOfRange String := do
  let total := e.table.columns.length
  let counts :=
    "Column " ++ toString (r.column + 1) ++ " of " ++ toString total ++
      " (" ++ (← e.table.label r.column) ++ "): Correct: " ++ toString r.correct ++
      ", Incorrect: " ++ toString r.incorrect ++ ", Missing: " ++ toString r.missing ++ "."
  let outcome :=
    if !r.isComplete then " Try fixing the highlighted rows."
    else if r.column < (total : Int) - 1 then
      " ✅ All rows correct. Moving to the next subformula column."
    else
      " ✅ All rows correct. You have completed all subformulas. This formula is " ++
        e.table.classify.phrase ++ "."
  return counts ++ outcome

end Exercise

end TruthTables
