import TruthTables.Text.Blank

/-!
# Spelling — one way to write each formula text

    `Spelling.normalize` removes blanks and gives every connective its ASCII
    spelling.  It works through a list of rules, one after another over the
    whole text.  No rule produces a character that a later rule rewrites
    into something else, so the outcome is the same as rewriting each
    character by itself.
-/

namespace TruthTables.Spelling

/-- A rule that replaces every character of a class by a fixed text. -/
structure Rule where
  applies : Char → Bool
  replacement : List Char

/-- Rewrites a text by one rule. -/
def Rule.apply (r : Rule) (cs : List Char) : List Char :=
  cs.flatMap fun c => if r.applies c then r.replacement else [c]

/-- Blanks vanish, and each connective gets its ASCII spelling. -/
def rules : List Rule :=
  [⟨Text.isBlank, []⟩,
   ⟨(· = '¬'), ['~']⟩,
   ⟨fun c => c = '∧' || c = '&', ['&']⟩,
   ⟨fun c => c = '∨' || c = 'v' || c = 'V', ['v']⟩,
   ⟨(· = '→'), ['-', '>']⟩,
   ⟨(· = '↔'), ['<', '-', '>']⟩]

/-- Rewrites a text by rules, the first one first. -/
def applyAll (rs : List Rule) (cs : List Char) : List Char :=
  rs.foldl (fun text r => r.apply text) cs

/-- The text in ASCII spelling, without blanks. -/
def normalize (text : String) : String := String.ofList (applyAll rules text.toList)

end TruthTables.Spelling
