/-!
# Random sources — what random choices are made with

    A random source answers two kinds of question: it draws a number from
    the unit interval, and it picks an index from a range.  Whatever is
    generated at random is a function of the answers, so it makes sense for
    any source, and each source is free in how it finds them.  A source may
    break down; it goes on answering, but what is made of the answers no
    longer counts.
-/

namespace TruthTables

/-- A number that is not negative, as a quotient. -/
structure Fraction where
  num : Nat
  den : Nat
deriving DecidableEq, Repr

/-- Whether a fraction is less than another one. -/
def Fraction.below (f g : Fraction) : Bool := f.num * g.den < g.num * f.den

/-- States of a random source. -/
class RandomSource (σ : Type) where
  /-- A number from zero up to, and perhaps short of, one. -/
  unit : StateM σ Fraction
  /-- An index from zero to `last`, both included. -/
  index (last : Nat) : StateM σ (Fin (last + 1))
  /-- Whether the source has broken down. -/
  isBroken : σ → Bool := fun _ => false

/-- A random source has broken down: it was to answer with a fraction that is
    too great for a number. -/
inductive Breakdown where
  | mk
deriving DecidableEq, Repr

/-- What has gone wrong, in words. -/
def Breakdown.message (_ : Breakdown) : String :=
  "integer division result too large for a float"

namespace RandomSource

variable {σ α : Type} [RandomSource σ]

/-- One of the items `x`, `xs`, each as likely as the others. -/
def choose (x : α) (xs : List α) : StateM σ α := do
  let i ← index xs.length
  return (x :: xs).get i

end RandomSource

end TruthTables
