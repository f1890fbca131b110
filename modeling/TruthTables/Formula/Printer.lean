import TruthTables.Formula

/-!
# The printer — formulas with every pair of parentheses

    A binary node is printed between parentheses with a space on both sides
    of its connective, and a negation in front of its operand with nothing
    between.  No pair is left out because binding strengths would allow it.
    Printers differ only in the glyphs they use for the connectives.
-/

namespace TruthTables

/-- A symbol for each connective. -/
structure Glyphs where
  not : String
  and : String
  or : String
  imp : String
  bicond : String
deriving DecidableEq, Repr

namespace Glyphs

/-- Connectives in ASCII. -/
def ascii : Glyphs := ⟨"~", "&", "v", "->", "<->"⟩

/-- Connectives in mathematical notation. -/
def unicode : Glyphs := ⟨"¬", "∧", "∨", "→", "↔"⟩

/-- The symbol of a binary connective. -/
def bin (g : Glyphs) : BinOp → String
  | .and => g.and
  | .or => g.or
  | .imp => g.imp
  | .bicond => g.bicond

/-- The symbol of a connective. -/
def symbol (g : Glyphs) : Connective → String
  | .not => g.not
  | .bin op => g.bin op

/-- The connectives that a table of symbols leaves out. -/
def missing (table : Connective → Option String) : List Connective :=
  Connective.all.filter fun c => (table c).isNone

/-- The glyphs that a table gives, or the connectives that it leaves out. -/
def ofTable (table : Connective → Option String) : Except (List Connective) Glyphs :=
  match table .not, table (.bin .and), table (.bin .or), table (.bin .imp),
      table (.bin .bicond) with
  | some n, some a, some o, some i, some b => .ok ⟨n, a, o, i, b⟩
  | _, _, _, _, _ => .error (missing table)

/-- Which connectives have no symbol, in words. -/
def missingMessage (cs : List Connective) : String :=
  "Glyph table has no symbol for [" ++ ", ".intercalate (cs.map Connective.debugForm) ++ "]"

end Glyphs

namespace Formula

/-- The formula in fully parenthesised form. -/
def render (g : Glyphs) : Formula → String
  | .atom name _ => name
  | .neg f _ => g.not ++ f.render g
  | .bin op l r _ => "(" ++ l.render g ++ " " ++ g.bin op ++ " " ++ r.render g ++ ")"

/-- The canonical text in ASCII. -/
def ascii : Formula → String := render .ascii

/-- The canonical text in mathematical notation. -/
def unicode : Formula → String := render .unicode

end Formula

end TruthTables
