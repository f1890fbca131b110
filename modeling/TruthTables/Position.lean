/-!
# Positions — counting from either end of a list

    A position that is not negative counts from the front, starting with
    zero; a negative one counts from the back, starting with minus one.
-/

namespace TruthTables

/-- Where a position points in a list of `length` items, if anywhere. -/
def position? (length : Nat) (i : Int) : Option Nat :=
  let j := if i < 0 then i + length else i
  if 0 ≤ j ∧ j < length then some j.toNat else none

/-- Why a position points at no item. -/
inductive OutOfRange where
  | reading
  | writing
  /-- No list is long enough for the position. -/
  | tooWide
deriving DecidableEq, Repr

namespace OutOfRange

/-- What is wrong with the position, in words. -/
def message : OutOfRange → String
  | .reading => "list index out of range"
  | .writing => "list assignment index out of range"
  | .tooWide => "cannot fit 'int' into an index-sized integer"

/-- The cause for a position outside a list: what it was used for, unless it
    has more than 64 bits, the sign among them. -/
def cause (i : Int) (use : OutOfRange) : OutOfRange :=
  if -Int.pow 2 63 ≤ i ∧ i < Int.pow 2 63 then use else .tooWide

end OutOfRange

/-- The item at a position. -/
def itemAt {α : Type} (xs : List α) (i : Int) : Except OutOfRange α :=
  match (position? xs.length i).bind (xs[·]?) with
  | some x => .ok x
  | none => .error (.cause i .reading)

/-- The list with another item at a position. -/
def replaceAt {α : Type} (xs : List α) (i : Int) (x : α) : Except OutOfRange (List α) :=
  match position? xs.length i with
  | some k => .ok (xs.set k x)
  | none => .error (.cause i .writing)

end TruthTables
