import TruthTables.Journal

/-!
# The office — clerks, and the journals that they keep

    There is one journal for each name, and records get into it through clerks.
    A clerk who is engaged for a name opens the journal of that name and keeps
    it from then on.  Another clerk may keep it already: they share it, and what
    one of them does to it the other finds done.

    One clerk is common to all.  Whoever asks for the common clerk first has one
    engaged, for the name that is given; whoever asks later gets the same one,
    whatever the name.
-/

namespace TruthTables

/-- Who keeps which journal. -/
structure Staff where
  /-- The journals of the clerks, in the order in which these were engaged. -/
  clerks : List String
  /-- The journal of the common clerk, once there is one. -/
  common : Option String
deriving DecidableEq, Repr

/-- What is asked of an office.  Clerks are numbered in the order in which they
    were engaged. -/
inductive OfficeAction where
  /-- Ask for the common clerk. -/
  | ask (name : String)
  /-- Engage another clerk. -/
  | engage (name : String) (level : Level)
  /-- Have a clerk change the level. -/
  | setLevel (clerk : Nat) (level : Level)
  /-- Have the common clerk change the level. -/
  | setCommonLevel (level : Level)
  /-- Hand a record to a clerk. -/
  | write (clerk : Nat) (r : Record)
deriving DecidableEq, Repr

namespace Staff

/-- Nobody has been engaged yet. -/
def nobody : Staff := ⟨[], none⟩

/-- The journal that a name stands for: no name at all stands for the root. -/
def journalOf (name : String) : String := if name = "" then "root" else name

/-- The name for which the common clerk is engaged when no other is given. -/
def commonName : String := "tabula"

/-- The journal of the common clerk, who is engaged for the name if there is none. -/
def commonJournal (s : Staff) (name : String) : String := s.common.getD (journalOf name)

/-- The staff with a clerk for another journal. -/
def engage (s : Staff) (journal : String) : Staff := { s with clerks := s.clerks ++ [journal] }

/-- The staff with a common clerk. -/
def ask (s : Staff) (name : String) : Staff :=
  match s.common with
  | some _ => s
  | none => { s.engage (journalOf name) with common := some (journalOf name) }

/-- The staff after an action. -/
def after (s : Staff) : OfficeAction → Staff
  | .ask name => s.ask name
  | .engage name _ => s.engage (journalOf name)
  | .setCommonLevel _ => s.ask commonName
  | .setLevel .. | .write .. => s

/-- What an action comes to, and for which journal; nothing if there is no such clerk. -/
def deed? (s : Staff) : OfficeAction → Option (String × JournalAction)
  | .ask name => some (s.commonJournal name, .obtain name)
  | .engage name level => some (journalOf name, .reopen level)
  | .setLevel clerk level => s.clerks[clerk]?.map (·, .setLevel level)
  | .setCommonLevel level => some (s.commonJournal commonName, .setCommonLevel level)
  | .write clerk r => s.clerks[clerk]?.map (·, .write r)

end Staff

/-- An office: the staff, and the journals by name. -/
structure Office where
  staff : Staff
  journals : String → Journal

namespace Office

/-- An office in which nothing has been done. -/
def fresh : Office := ⟨.nobody, fun _ => .unopened⟩

/-- The office with one journal changed. -/
def change (o : Office) (name : String) (f : Journal → Journal) : Office :=
  { o with journals := fun n => if n = name then f (o.journals n) else o.journals n }

/-- The office after an action. -/
def after (o : Office) (a : OfficeAction) : Office :=
  let done :=
    match o.staff.deed? a with
    | some (name, deed) => o.change name fun j => j.after deed
    | none => o
  { done with staff := o.staff.after a }

/-- The records that an action writes. -/
def written (o : Office) (a : OfficeAction) : List Record :=
  match o.staff.deed? a with
  | some (name, deed) => (o.journals name).written deed
  | none => []

/-- Performs actions in turn, with all records that are written. -/
def run (o : Office) : List OfficeAction → Office × List Record
  | [] => (o, [])
  | a :: as =>
      let (last, later) := (o.after a).run as
      (last, o.written a ++ later)

end Office

end TruthTables
