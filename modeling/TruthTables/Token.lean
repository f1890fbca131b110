import TruthTables.Formula

/-!
# Tokens — the words of the formula language

    A token is a symbol of the language together with how it was spelt and
    where.  Each connective has an ASCII and a mathematical spelling, and
    disjunction two letters besides, so V is never the name of an atom.  An
    atom is one letter from A to Z.
-/

namespace TruthTables

/-- The symbols that formulas are written with. -/
inductive Symbol where
  | letter (c : Char)
  | lparen
  | rparen
  | connective (c : Connective)
deriving DecidableEq, Repr

namespace Symbol

/-- The keyword that names the sort of symbol. -/
def keyword : Symbol → String
  | .letter _ => "VAR"
  | .lparen => "LPAREN"
  | .rparen => "RPAREN"
  | .connective c => c.keyword

/-- The name of the atom that the symbol stands for, if it is a letter. -/
def atomName? : Symbol → Option String
  | .letter c => some (String.singleton c)
  | _ => none

/-- The symbol as token lists show it: its keyword, and a letter's name. -/
def display (s : Symbol) : String :=
  match s.atomName? with
  | some name => s.keyword ++ "(" ++ name ++ ")"
  | none => s.keyword

/-- Whether a character names an atom when it stands alone. -/
def isAtomLetter (c : Char) : Bool := 'A' ≤ c && c ≤ 'Z' && c ≠ 'V'

/-- The symbol that a single character spells, if it spells one. -/
def ofChar? (c : Char) : Option Symbol :=
  match c with
  | '↔' => some (.connective (.bin .bicond))
  | '→' => some (.connective (.bin .imp))
  | '~' | '¬' => some (.connective .not)
  | '&' | '∧' => some (.connective (.bin .and))
  | 'v' | 'V' | '∨' => some (.connective (.bin .or))
  | '(' => some .lparen
  | ')' => some .rparen
  | c => if isAtomLetter c then some (.letter c) else none

/-- Whether a character may stand between tokens: space, tab, line feed. -/
def isIgnored (c : Char) : Bool := c = ' ' || c = '\t' || c = '\n'

end Symbol

/-- A symbol as it occurs in a text. -/
structure Token where
  symbol : Symbol
  /-- The characters that spell it there. -/
  spelling : String
  /-- The number of characters in front of it. -/
  position : Nat
deriving DecidableEq, Repr

end TruthTables
