import TruthTables.Number
import TruthTables.Random.Source

/-!
# Prepared draws — a random source that is a list

    Each question takes the next number of a list prepared beforehand.  Past
    the end of the list the number is zero.  The draws are counted, those
    past the end as well.  Fractions are thousandths; one that is too great
    for a number breaks the source.
-/

namespace TruthTables

/-- Numbers still to be drawn, how many have been, and whether one of them
    was too great. -/
structure Draws where
  rest : List Nat
  used : Nat := 0
  broken : Bool := false
deriving DecidableEq, Repr

namespace Draws

/-- Takes the next number. -/
def next : StateM Draws Nat := fun d =>
  match d.rest with
  | [] => (0, { d with used := d.used + 1 })
  | n :: ns => (n, { d with rest := ns, used := d.used + 1 })

/-- Takes the next number as thousandths. -/
def unit : StateM Draws Fraction := do
  let n ← next
  if (Number.nearest false n 1000).isInfinite then modify fun d => { d with broken := true }
  return ⟨n, 1000⟩

instance : RandomSource Draws where
  unit := unit
  index last := do return Fin.ofNat (last + 1) (← next)
  isBroken := broken

end Draws

end TruthTables
