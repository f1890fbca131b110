import TruthTables.Text.Printable

/-!
# Quoted text — a text between quotes, on one line and printable

    `Text.quote` writes a text so that its exact characters can be seen.  It
    stands between single quotes, or between double quotes if it holds a
    single quote and no double one.  The backslash and the quote in use are
    escaped, line ends and tabs have short escapes, and every other
    character that does not print is given by its code point.
-/

namespace TruthTables.Text

/-- The hexadecimal digits of `n`, at least `width` of them. -/
def hex (width n : Nat) : List Char :=
  let ds := Nat.toDigits 16 n
  List.replicate (width - ds.length) '0' ++ ds

/-- How one character is written between the quotes `q`. -/
def escapeChar (q c : Char) : List Char :=
  if c = '\\' ∨ c = q then ['\\', c]
  else if c = '\n' then ['\\', 'n']
  else if c = '\r' then ['\\', 'r']
  else if c = '\t' then ['\\', 't']
  else if isPrintable c then [c]
  else if c.toNat < 0x100 then '\\' :: 'x' :: hex 2 c.toNat
  else if c.toNat < 0x10000 then '\\' :: 'u' :: hex 4 c.toNat
  else '\\' :: 'U' :: hex 8 c.toNat

/-- The quote that a text is put between. -/
def quoteFor (cs : List Char) : Char :=
  if '\'' ∈ cs ∧ '"' ∉ cs then '"' else '\''

/-- The text between quotes. -/
def quote (s : String) : String :=
  let q := quoteFor s.toList
  String.ofList (q :: s.toList.flatMap (escapeChar q) ++ [q])

/-- Items separated by a comma and a space. -/
def commaSeparated (items : List String) : String := ", ".intercalate items

/-- Texts as a list in square brackets, each quoted. -/
def quoteList (ss : List String) : String :=
  "[" ++ commaSeparated (ss.map quote) ++ "]"

/-- Texts as a tuple in round brackets, each quoted; a tuple of one keeps a
    comma. -/
def quoteTuple (ss : List String) : String :=
  match ss with
  | [s] => "(" ++ quote s ++ ",)"
  | _ => "(" ++ commaSeparated (ss.map quote) ++ ")"

/-- A truth value in words. -/
def truthWord (b : Bool) : String := if b then "True" else "False"

end TruthTables.Text
