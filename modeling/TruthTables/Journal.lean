/-!
# The journal — records with a level, and who gets to see them

    Progress is told in records, each with a level.  A journal lets a record
    through if its level reaches the journal's threshold, and then hands it
    to its outlets, each with a threshold of its own.  Opening a journal
    again drops the old outlets and installs a single new one, and a change
    of level reaches the journal and all its outlets; so there is always one
    outlet, and one threshold.
-/

namespace TruthTables

/-- How serious a record is. -/
inductive Level where
  | debug
  | info
  | warning
  | error
deriving DecidableEq, Repr

namespace Level

/-- The rank of a level, greater for the more serious. -/
def rank : Level → Nat
  | .debug => 10
  | .info => 20
  | .warning => 30
  | .error => 40

/-- The name of a level. -/
def name : Level → String
  | .debug => "DEBUG"
  | .info => "INFO"
  | .warning => "WARNING"
  | .error => "ERROR"

/-- The level with a given name. -/
def ofName? (s : String) : Option Level :=
  [Level.debug, .info, .warning, .error].find? fun l => l.name = s

/-- Whether a level is at least as serious as a threshold. -/
def reaches (l threshold : Level) : Bool := threshold.rank ≤ l.rank

end Level

/-- A message with its level. -/
structure Record where
  level : Level
  message : String
deriving DecidableEq, Repr

namespace Record

/-- The record as a line: plain at the level of information, and otherwise
    with the level in front. -/
def line (r : Record) : String :=
  if r.level = .info then r.message else "[" ++ r.level.name ++ "] " ++ r.message

/-- The records that reach a threshold. -/
def visible (threshold : Level) (rs : List Record) : List Record :=
  rs.filter fun r => r.level.reaches threshold

/-- Records as text, each on a line that is ended. -/
def text (rs : List Record) : String := String.join (rs.map fun r => r.line ++ "\n")

end Record

/-- A journal: a threshold, and the thresholds of its outlets. -/
structure Journal where
  threshold : Level
  outlets : List Level
  /-- Whether the common journal has been asked for before. -/
  obtained : Bool
deriving DecidableEq, Repr

/-- What is done with a journal. -/
inductive JournalAction where
  /-- Ask for the common journal; there is one, whatever the name. -/
  | obtain (name : String)
  /-- Open the journal with a level. -/
  | reopen (level : Level)
  /-- Change the level. -/
  | setLevel (level : Level)
  /-- Change the level of the common journal. -/
  | setCommonLevel (level : Level)
  /-- Hand in a record. -/
  | write (r : Record)
deriving DecidableEq, Repr

namespace Journal

/-- A journal that nobody has opened yet: it has no outlets. -/
def unopened : Journal := ⟨.warning, [], false⟩

/-- The journal with an outlet added. -/
def addOutlet (j : Journal) (level : Level) : Journal := { j with outlets := j.outlets ++ [level] }

/-- The journal opened with a level: its outlets are replaced by a new one. -/
def reopen (j : Journal) (level : Level) : Journal :=
  { j with threshold := level, outlets := [] }.addOutlet level

/-- The journal with another level, and its outlets likewise. -/
def setLevel (j : Journal) (level : Level) : Journal :=
  { j with threshold := level, outlets := j.outlets.map fun _ => level }

/-- The common journal, opened at the level of information when it is asked
    for the first time. -/
def obtain (j : Journal) : Journal :=
  if j.obtained then j else { j.reopen .info with obtained := true }

/-- The copies of a record that are written, one for each outlet that it
    reaches. -/
def copies (j : Journal) (r : Record) : List Record :=
  if r.level.reaches j.threshold then
    (j.outlets.filter fun o => r.level.reaches o).map fun _ => r
  else []

/-- The journal after an action. -/
def after (j : Journal) : JournalAction → Journal
  | .obtain _ => j.obtain
  | .reopen level => j.reopen level
  | .setLevel level => j.setLevel level
  | .setCommonLevel level => j.obtain.setLevel level
  | .write _ => j

/-- The records that an action writes. -/
def written (j : Journal) : JournalAction → List Record
  | .write r => j.copies r
  | _ => []

/-- Performs actions in turn, with all records that are written. -/
def run (j : Journal) : List JournalAction → Journal × List Record
  | [] => (j, [])
  | a :: as =>
      let (last, later) := (j.after a).run as
      (last, j.written a ++ later)

end Journal

end TruthTables
