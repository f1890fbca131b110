import TruthTables.Assignment

/-!
# Evaluation — the truth value of a formula under an assignment

    Both operands of a connective are always evaluated, the left one first,
    so an atom without a value is missed wherever it stands, and of several
    such atoms the leftmost is reported.
-/

namespace TruthTables

/-- An atom that the assignment gives no value. -/
structure MissingAtom where
  name : String
deriving DecidableEq, Repr

/-- Which atom lacks a value, in words. -/
def MissingAtom.message (e : MissingAtom) : String :=
  "Assignment has no value for atom '" ++ e.name ++ "'"

namespace Formula

/-- The truth value under an assignment. -/
def eval (a : Assignment) : Formula → Except MissingAtom Bool
  | .atom name _ =>
      match a.truth? name with
      | some b => .ok b
      | none => .error ⟨name⟩
  | .neg f _ => do return !(← f.eval a)
  | .bin op l r _ => do
      let x ← l.eval a
      let y ← r.eval a
      return op.apply x y

end Formula

end TruthTables
