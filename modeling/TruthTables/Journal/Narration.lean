import TruthTables.Exercise
import TruthTables.Generator
import TruthTables.Journal.Events

/-!
# Narration — the records that each activity writes, in order

    The activities themselves are pure: they compute values and write
    nothing.  What is to be told about them is computed here from the same
    arguments.  An activity that fails tells what came before its failure.
-/

namespace TruthTables.Narration

/-- The records of reading a formula from a text. -/
def read (text : String) : List Record :=
  .debug ("Parsing formula: " ++ text) ::
    match Formula.ofText text with
    | .ok f =>
        [.debug ("Successfully parsed formula into " ++ f.rootSort),
         .debug ("Formula parsed successfully into AST with type: " ++ f.rootSort)]
    | .error (.lex e) => [lexFault e]
    | .error (.parse _) => [.debug "ParseError encountered during formula parsing"]
where
  /-- The record of a character that belongs to no token. -/
  lexFault (e : LexError) : Record :=
    .debug ("Illegal character '" ++ String.singleton e.character ++ "' at position " ++
      toString e.position)

/-- The records of cutting a text into tokens. -/
def scan (text : String) : List Record :=
  match Token.scan text with
  | .ok _ => []
  | .error e => [read.lexFault e]

/-- The records of comparing a text with the canonical one. -/
def compare (raw : String) (f : Formula) : List Record :=
  [.debug ("Grammar check: input=" ++ Text.quote (Spelling.normalize raw) ++ " canonical=" ++
    Text.quote (Spelling.normalize f.ascii) ++ " warn=" ++ Text.truthWord (f.departs raw))]

/-- The records of loading a text. -/
def load (text : String) : List Record :=
  read text ++
    match Loaded.ofText text with
    | .error _ => []
    | .ok loaded =>
        compare text loaded.root ++
          if loaded.warns then (Event.grammarWarning text loaded.canonical).records else []

/-- The records of enumerating assignments. -/
def enumerate (atoms : List String) : List Record :=
  match Assignment.enumerate atoms with
  | .error _ => []
  | .ok rows =>
      [.debug ("Enumerated " ++ toString rows.length ++ " assignments over " ++
        Text.quoteList atoms)]

/-- The records of building the table of a formula. -/
def table (root : Formula) : List Record :=
  enumerate root.atoms ++
    match Table.ofFormula root with
    | .error _ => []
    | .ok t =>
        [.debug ("Built truth table: " ++ toString t.atoms.length ++ " atoms, " ++
          toString t.rows.length ++ " rows, " ++ toString t.columns.length ++ " columns")]

/-- The records of a graded column. -/
def graded (t : Table) (r : Report) : List Record :=
  match t.label r.column with
  | .error _ => []
  | .ok label =>
      (Event.columnChecked (r.column + 1) label r.correct r.incorrect r.missing).records

/-- The records of starting an exercise. -/
def start (loaded : Loaded) : List Record :=
  table loaded.root ++
    match Exercise.start loaded with
    | .error _ => []
    | .ok e =>
        (Event.formulaLoaded loaded.canonical (Text.commaSeparated e.table.atoms)
          e.table.columns.length).records

/-- The records of checking the active column of an exercise. -/
def check (e : Exercise) : List Record :=
  match e.check with
  | .ok (some r, _) => graded e.table r
  | _ => []

/-- The records of drawing a practice question. -/
def question (q : Question) : List Record :=
  [.debug ("Generated random formula (atoms=" ++ Text.quoteTuple q.atoms ++ ", depth=" ++
    toString q.depth ++ "): " ++ q.text)]

end TruthTables.Narration
