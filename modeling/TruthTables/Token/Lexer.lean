import TruthTables.Token

/-!
# The lexer — a text cut into tokens

    Spaces, tabs and line feeds separate tokens and are dropped; no other
    white space is known.  The two spellings of more than one character are
    tried first.  A character that begins no token is refused with its
    position, counted in characters from zero, and nothing of the text is
    kept.
-/

namespace TruthTables

/-- A character that belongs to no token. -/
structure LexError where
  character : Char
  position : Nat
deriving DecidableEq, Repr

/-- The refused character and its place, in words. -/
def LexError.message (e : LexError) : String :=
  "Unexpected character '" ++ String.singleton e.character ++ "' at position " ++
    toString e.position

namespace Token

/-- The tokens of the characters that start at `position`. -/
def scanFrom (position : Nat) : List Char → Except LexError (List Token)
  | [] => .ok []
  | '<' :: '-' :: '>' :: cs => do
      return ⟨.connective (.bin .bicond), "<->", position⟩ :: (← scanFrom (position + 3) cs)
  | '-' :: '>' :: cs => do
      return ⟨.connective (.bin .imp), "->", position⟩ :: (← scanFrom (position + 2) cs)
  | c :: cs =>
      if Symbol.isIgnored c then scanFrom (position + 1) cs
      else
        match Symbol.ofChar? c with
        | some symbol => do
            return ⟨symbol, String.singleton c, position⟩ :: (← scanFrom (position + 1) cs)
        | none => .error ⟨c, position⟩

/-- The tokens of a text. -/
def scan (text : String) : Except LexError (List Token) := scanFrom 0 text.toList

end Token

end TruthTables
