import TruthTables.Text.Blank

/-!
# Integer numerals — blanks, a sign, digits and single underscores

    `Text.integer?` reads an integer the way a person may type it: blanks
    around it, a sign in front, leading zeros, single underscores between
    digits, and the decimal digits of any script.  What it refuses is no
    integer: a lone sign, a doubled or outer underscore, a point.
-/

namespace TruthTables.Text

/-- The zeros of the scripts with decimal digits.  The nine code points
    after each zero are the digits one to nine of the same script. -/
def decimalZeros : List Nat :=
  [0x0030, 0x0660, 0x06F0, 0x07C0, 0x0966, 0x09E6, 0x0A66, 0x0AE6, 0x0B66, 0x0BE6, 0x0C66,
   0x0CE6, 0x0D66, 0x0DE6, 0x0E50, 0x0ED0, 0x0F20, 0x1040, 0x1090, 0x17E0, 0x1810, 0x1946,
   0x19D0, 0x1A80, 0x1A90, 0x1B50, 0x1BB0, 0x1C40, 0x1C50, 0xA620, 0xA8D0, 0xA900, 0xA9D0,
   0xA9F0, 0xAA50, 0xABF0, 0xFF10, 0x104A0, 0x10D30, 0x11066, 0x110F0, 0x11136, 0x111D0,
   0x112F0, 0x11450, 0x114D0, 0x11650, 0x116C0, 0x11730, 0x118E0, 0x11950, 0x11C50, 0x11D50,
   0x11DA0, 0x16A60, 0x16AC0, 0x16B50, 0x1D7CE, 0x1D7D8, 0x1D7E2, 0x1D7EC, 0x1D7F6, 0x1E140,
   0x1E2F0, 0x1E950, 0x1FBF0]

/-- The value of a decimal digit of any script. -/
def digit? (c : Char) : Option Nat :=
  (decimalZeros.find? fun z => z ≤ c.toNat && c.toNat < z + 10).map (c.toNat - ·)

/-- Digits, with at most one underscore between any two of them. -/
def digits? : List Char → Option (List Nat)
  | [] => none
  | [c] => (digit? c).map ([·])
  | c :: '_' :: cs => return (← digit? c) :: (← digits? cs)
  | c :: cs => return (← digit? c) :: (← digits? cs)

/-- The greatest number of digits that a numeral may have. -/
def digitLimit : Nat := 4300

/-- The value of a sequence of decimal digits, most significant first. -/
def ofDigits (ds : List Nat) : Nat := ds.foldl (fun n d => 10 * n + d) 0

/-- The value of an unsigned numeral of at most `digitLimit` digits. -/
def natural? (cs : List Char) : Option Nat := do
  let ds ← digits? cs
  if ds.length ≤ digitLimit then some (ofDigits ds) else none

/-- Whether a character may stand around a numeral.  Within ASCII these are
    the tab, the line and page ends and the space. -/
def surroundsNumeral (c : Char) : Bool :=
  isBlank c && !(0x1C ≤ c.toNat && c.toNat ≤ 0x1F)

/-- The integer that a text denotes, if it denotes one. -/
def integer? (s : String) : Option Int :=
  match trimBoth surroundsNumeral s.toList with
  | '-' :: cs => (natural? cs).map fun n => -(n : Int)
  | '+' :: cs => (natural? cs).map Int.ofNat
  | cs => (natural? cs).map Int.ofNat

example : integer? " -1_000\n" = some (-1000) := by decide
example : integer? "1__0" = none := by decide

end TruthTables.Text
