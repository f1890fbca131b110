import TruthTables.Journal

/-!
# Events — the records that an exercise and a table give rise to

    Each event has its own records, with a fixed level and wording.
-/

namespace TruthTables

namespace Record

/-- A record for whoever looks for a fault. -/
def debug (message : String) : Record := ⟨.debug, message⟩

/-- A record of ordinary progress. -/
def info (message : String) : Record := ⟨.info, message⟩

/-- A record of something odd that does no harm. -/
def warning (message : String) : Record := ⟨.warning, message⟩

/-- A record of a failure. -/
def error (message : String) : Record := ⟨.error, message⟩

end Record

/-- What happens to a formula and its table. -/
inductive Event where
  /-- A formula was loaded, with its canonical text and its atoms. -/
  | formulaLoaded (canonical atoms : String) (columns : Int)
  /-- A text was not canonical. -/
  | grammarWarning (raw canonical : String)
  /-- A column was graded; columns count from one here. -/
  | columnChecked (column : Int) (label : String) (correct incorrect missing : Int)
  /-- A row of a table is shown. -/
  | tableRow (row : String)
  /-- The classification of a formula is shown. -/
  | classification (kind : String)
deriving DecidableEq, Repr

/-- The records of an event. -/
def Event.records : Event → List Record
  | .formulaLoaded canonical atoms columns =>
      [.info ("Formula: " ++ canonical),
       .debug ("Atoms: " ++ atoms ++ ", subformula columns: " ++ toString columns)]
  | .grammarWarning raw canonical =>
      [.warning ("⚠️  '" ++ raw ++ "' was read as " ++ canonical)]
  | .columnChecked column label correct incorrect missing =>
      [.debug ("    🔍 Column " ++ toString column ++ " (" ++ label ++ "): correct=" ++
        toString correct ++ ", incorrect=" ++ toString incorrect ++ ", missing=" ++
        toString missing)]
  | .tableRow row => [.info row]
  | .classification kind => [.info ("\n>>> " ++ kind ++ " <<<")]

end TruthTables
