import TruthTables.Token.Lexer

/-!
# The parser — tokens read into a formula, left to right

    The reader keeps a stack of what still waits for the operand being read:
    open parentheses, negations, and left operands with their connective.
    It either expects an operand or has just completed one.  When a binary
    connective follows a completed operand, everything on the stack that
    binds at least as tightly is closed first; so stronger connectives bind
    first and equal ones group to the left, implication included.

    A token that cannot continue any formula is refused at once.  The reader
    does not say why.  While the tokens are pulled in, it is noted which one
    came last, which one before that, and how many parentheses are open; and
    the refusal is put in words from these notes: input goes on after a whole
    formula, a parenthesis is still open, or the token itself is out of place.
-/

namespace TruthTables

/-- Why a token sequence is no formula. -/
inductive ParseError where
  /-- There are no tokens at all. -/
  | empty
  /-- The input ends where an operand has to follow. -/
  | endOfInput
  /-- The input ends inside a parenthesis. -/
  | unclosed
  /-- An operand starts where a parenthesis has to be closed. -/
  | unclosedBefore (t : Token)
  /-- Input goes on after a whole formula. -/
  | trailing (t : Token)
  /-- The token cannot stand here. -/
  | unexpected (t : Token)
deriving DecidableEq, Repr

/-- The cause in words, with the spelling and the position of the token. -/
def ParseError.message : ParseError → String
  | .empty => "Unexpected end of input: formula is empty"
  | .endOfInput => "Unexpected end of input"
  | .unclosed => "Missing closing parenthesis"
  | .unclosedBefore t =>
      "Missing closing parenthesis before '" ++ t.spelling ++ "' at position " ++
        toString t.position
  | .trailing t =>
      "Unexpected trailing input '" ++ t.spelling ++ "' at position " ++ toString t.position
  | .unexpected t =>
      "Unexpected token " ++ t.symbol.keyword ++ " ('" ++ t.spelling ++ "') at position " ++
        toString t.position

namespace Symbol

/-- Whether an operand can end with the symbol. -/
def isOperandEnd : Symbol → Bool
  | .letter _ | .rparen => true
  | .lparen | .connective _ => false

/-- Whether the symbol can do nothing but start an operand. -/
def isOperandStart : Symbol → Bool
  | .letter _ | .lparen | .connective .not => true
  | .rparen | .connective (.bin _) => false

end Symbol

namespace Parser

-- ── Reading ───────────────────────────────────────────────────────────────

/-- What waits for the operand being read. -/
inductive Pending where
  | paren
  | neg
  | left (op : BinOp) (operand : Formula)
deriving DecidableEq, Repr

/-- How far the reading of a formula has come. -/
structure State where
  /-- What waits for an operand, innermost first. -/
  pending : List Pending
  /-- The operand just completed; without one, an operand is expected. -/
  operand : Option Formula
deriving DecidableEq, Repr

/-- Nothing read yet. -/
def State.start : State := ⟨[], none⟩

/-- Closes what waits for the operand `f` and binds at least as tightly as
    `strength`, up to the innermost open parenthesis. -/
def close (strength : Nat) : List Pending → Formula → List Pending × Formula
  | .neg :: ps, f => close strength ps (.neg f none)
  | .left op l :: ps, f =>
      if strength ≤ op.strength then close strength ps (.bin op l f none)
      else (.left op l :: ps, f)
  | ps, f => (ps, f)

/-- Reads one token where an operand is expected. -/
def readOperand (ps : List Pending) (t : Token) : Option State :=
  match t.symbol with
  | .letter c => some ⟨ps, some (.atom (String.singleton c) none)⟩
  | .lparen => some ⟨.paren :: ps, none⟩
  | .connective .not => some ⟨.neg :: ps, none⟩
  | .rparen | .connective (.bin _) => none

/-- Reads one token after the completed operand `f`. -/
def readAfter (ps : List Pending) (f : Formula) (t : Token) : Option State :=
  match t.symbol with
  | .connective (.bin op) =>
      let (qs, g) := close op.strength ps f
      some ⟨.left op g :: qs, none⟩
  | .rparen =>
      match close 0 ps f with
      | (.paren :: qs, g) => some ⟨qs, some g⟩
      | _ => none
  | .letter _ | .lparen | .connective .not => none

/-- Reads one token, unless no formula goes on with it. -/
def State.read (s : State) (t : Token) : Option State :=
  match s.operand with
  | none => readOperand s.pending t
  | some f => readAfter s.pending f t

/-- The formula that has been read, if the input can end here. -/
def State.finish (s : State) : Option Formula :=
  match s.operand with
  | none => none
  | some f =>
      match close 0 s.pending f with
      | ([], g) => some g
      | _ => none

-- ── Notes on the tokens ───────────────────────────────────────────────────

/-- What is noted of the tokens as they are pulled in, one after another. -/
structure Track where
  /-- The token that was pulled in last. -/
  last : Option Token
  /-- The token before that one. -/
  previous : Option Token
  /-- How many more parentheses have been opened than closed. -/
  depth : Int
  /-- The same in front of the last token. -/
  depthBefore : Int
deriving DecidableEq, Repr

namespace Track

/-- No token yet. -/
def start : Track := ⟨none, none, 0, 0⟩

/-- The notes with one more token. -/
def pull (k : Track) (t : Token) : Track where
  last := some t
  previous := k.last
  depth :=
    match t.symbol with
    | .lparen => k.depth + 1
    | .rparen => k.depth - 1
    | _ => k.depth
  depthBefore := k.depth

/-- Why the token that was pulled in last is refused, or the end of the input. -/
def explain (k : Track) : Option Token → ParseError
  | none =>
      if (k.last.any fun t => t.symbol.isOperandEnd) && 0 < k.depth then .unclosed
      else .endOfInput
  | some t =>
      let afterOperand := k.previous.any fun p => p.symbol.isOperandEnd
      if afterOperand && t.symbol.isOperandStart then
        if 0 < k.depthBefore then .unclosedBefore t else .trailing t
      else if afterOperand && t.symbol = .rparen && k.depthBefore = 0 then .trailing t
      else .unexpected t

end Track

/-- Pulls in the tokens one after another and hands each to a reader.  When the reader
    refuses a token or the end, the notes tell why. -/
def follow {σ α : Type} (read : σ → Token → Option σ) (finish : σ → Option α) (k : Track) (s : σ) :
    List Token → Except ParseError α
  | [] =>
      match finish s with
      | some x => .ok x
      | none => .error (k.explain none)
  | t :: ts =>
      match read s t with
      | some s' => follow read finish (k.pull t) s' ts
      | none => .error ((k.pull t).explain (some t))

/-- Reads all tokens, of which there has to be one, from the state `s` on. -/
def readAll {σ α : Type} (read : σ → Token → Option σ) (finish : σ → Option α) (s : σ)
    (ts : List Token) : Except ParseError α :=
  if ts = [] then .error .empty else follow read finish .start s ts

end Parser

/-- Why a text is no formula. -/
inductive ReadError where
  | lex (e : LexError)
  | parse (e : ParseError)
deriving DecidableEq, Repr

/-- The cause in words. -/
def ReadError.message : ReadError → String
  | .lex e => e.message
  | .parse e => e.message

namespace Formula

/-- The formula that a token sequence spells, numbered from zero. -/
def ofTokens (ts : List Token) : Except ParseError Formula := do
  return (← Parser.readAll Parser.State.read Parser.State.finish .start ts).number

/-- The formula that a text spells.  The whole text is cut into tokens
    before any of them is read, so a bad character anywhere wins over a
    misplaced token. -/
def ofText (text : String) : Except ReadError Formula := do
  let ts ← (Token.scan text).mapError .lex
  (ofTokens ts).mapError .parse

end Formula

end TruthTables
