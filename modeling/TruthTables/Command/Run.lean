import TruthTables.Command.Files
import TruthTables.Command.Options
import TruthTables.Journal.Narration
import TruthTables.Random.Twister
import TruthTables.Text.Utf8

/-!
# Runs — from a command line to a table on the screen

    A run finds its formula: a random one if that is asked for, else the one
    in the named file, else the one on the command line.  It shows the
    canonical form and whether the text was canonical, and then, unless only
    a check was asked for, the truth table and the classification.  A run
    that fails says why in one record and ends with a code of its own.
-/

namespace TruthTables.Command

/-- How a run ends. -/
inductive Exit where
  | success
  | badFormula
  | badInput
  | failure
deriving DecidableEq, Repr

/-- The exit code. -/
def Exit.code : Exit → Nat
  | .success => 0
  | .badFormula => 2
  | .badInput => 3
  | .failure => 5

/-- What a run may ask for from outside. -/
structure Surroundings where
  /-- The bytes of the file at a path in plain form. -/
  openFile : String → Except OpenError (List UInt8)
  /-- A seed for a run that is given none. -/
  freshSeed : Int

/-- Why there is no text of a formula. -/
inductive SourceError where
  | noSource
  /-- The option for a file has no value. -/
  | noPath
  /-- The option for a seed has no value. -/
  | noSeed
  | notOpened (path : String) (e : OpenError)
  | notText (e : Utf8.Malformed)
  | emptyFile
deriving DecidableEq, Repr

namespace SourceError

/-- The cause in words. -/
def message : SourceError → String
  | .noSource => "No formula given (pass a formula, --file or --random)"
  | .noPath => "expected str, bytes or os.PathLike object, not list"
  | .noSeed =>
      "The only supported seed types are: None,\nint, float, str, bytes, and bytearray."
  | .notOpened path e => e.message path
  | .notText e => e.message
  | .emptyFile => "Formula file is empty"

/-- How a run ends for this cause: bad input, unless an option had no value
    or the system refused something that looked like input. -/
def exit : SourceError → Exit
  | .noSource | .notText _ | .emptyFile => .badInput
  | .notOpened _ .absent | .notOpened _ .nul => .badInput
  | .noPath | .noSeed | .notOpened .. => .failure

end SourceError

/-- The text of a formula file: its characters, with one kind of line end,
    without blanks at both ends. -/
def fileText (bytes : List UInt8) : Except SourceError String := do
  let cs ← (Utf8.decode bytes).mapError .notText
  let text := Text.strip (Text.unifyLineEnds cs)
  if text = [] then .error .emptyFile else .ok (String.ofList text)

/-- The text in the file at a path. -/
def readFile (s : Surroundings) (path : String) : Except SourceError String := do
  let plain := plainPath path
  fileText (← (s.openFile plain).mapError (.notOpened plain))

/-- The question that is drawn for a seed. -/
def questionOfSeed (seed : Int) : Question := (Question.draw.run (Twister.ofSeed seed)).1

/-- The text of the formula that a run is about, with the records of how it
    was found. -/
def findText (s : Surroundings) (o : Options) : List Record × Except SourceError String :=
  if o.random then
    match o.seed.getD (some s.freshSeed) with
    | none => ([], .error .noSeed)
    | some seed =>
        let q := questionOfSeed seed
        (Narration.question q, .ok q.text)
  else
    match o.file, o.formula with
    | some none, _ => ([], .error .noPath)
    | some (some path), _ => ([], readFile s path)
    | none, some text => ([], if text = "" then .error .noSource else .ok text)
    | none, none => ([], .error .noSource)

/-- What a run tells and how it ends. -/
structure Outcome where
  exit : Exit
  records : List Record
deriving DecidableEq, Repr

namespace Outcome

/-- The outcome with records in front. -/
def after (rs : List Record) (r : Outcome) : Outcome := { r with records := rs ++ r.records }

/-- A failure, told in one record. -/
def failed (exit : Exit) (message : String) : Outcome :=
  ⟨exit, [.error (lead exit ++ message)]⟩
where
  /-- What comes before the cause of a failure. -/
  lead : Exit → String
    | .badFormula => "Formula error: "
    | .badInput => "Input error: "
    | .failure | .success => "Unexpected error: "

end Outcome

/-- What the heading of a column looks like. -/
def heading (o : Options) : Formula → String :=
  if o.ascii then Formula.ascii else Formula.unicode

/-- Shows the table and the classification of a formula. -/
def showTable (o : Options) (root : Formula) : Outcome :=
  (match Table.ofFormula root with
    | .error e@(.repeated _) => Outcome.failed .badInput e.message
    | .error e@(.missing _) => Outcome.failed .failure (Text.quote e.message)
    | .ok t =>
        ⟨.success,
          Record.info "" ::
            (t.lines (heading o)).flatMap (fun row => (Event.tableRow row).records) ++
            (Event.classification t.classify.headline).records⟩).after (Narration.table root)

/-- Shows a formula: its canonical form, whether its text was canonical, and
    its table. -/
def showLoaded (o : Options) (text : String) (loaded : Loaded) : Outcome :=
  let told := if o.verbose then [Record.info ("📋 Formula loaded: " ++ text)] else []
  let verdict :=
    if loaded.warns then Record.warning grammarWarning
    else Record.info "✅ Formula is fully parenthesized"
  (if o.checkOnly then ⟨.success, []⟩ else showTable o loaded.root).after
    (told ++ [.info ("Canonical form: " ++ loaded.canonical), verdict])

/-- Loads a text and shows the formula. -/
def runText (o : Options) (text : String) : Outcome :=
  (match Loaded.ofText text with
    | .error e => Outcome.failed .badFormula e.message
    | .ok loaded => showLoaded o text loaded).after (Narration.load text)

/-- A whole run. -/
def run (s : Surroundings) (o : Options) : Outcome :=
  let (told, found) := findText s o
  (match found with
    | .error e => Outcome.failed e.exit e.message
    | .ok text => runText o text).after told

/-- The level from which records are written. -/
def threshold (o : Options) : Level := if o.debug || o.verbose then .debug else .info

/-- The records that a run writes. -/
def written (s : Surroundings) (o : Options) : List Record :=
  Record.visible (threshold o) (run s o).records

/-- The name under which the command is called. -/
def name : String := "run_tables.py"

/-- What a refused command line is answered with. -/
def refusal (e : UsageError) : String := name ++ ": error: " ++ e.message

end TruthTables.Command
