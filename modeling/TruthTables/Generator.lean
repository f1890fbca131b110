import TruthTables.Formula.Printer
import TruthTables.Random.Source

/-!
# Random formulas — practice questions of a given depth

    A formula is grown from the root down.  As long as depth is left, three
    times out of ten the node is a negation, and otherwise a binary one,
    whose connective is drawn after both operands have been grown.  When no
    depth is left, the leaf is an atom from the pool.  So every leaf lies at
    exactly the given depth.
-/

namespace TruthTables

/-- Why there is no random formula. -/
inductive GrowthError where
  /-- There is no atom to put at the leaves. -/
  | emptyPool
  | broken (e : Breakdown)
deriving DecidableEq, Repr

/-- What is wanting, in words. -/
def GrowthError.message : GrowthError → String
  | .emptyPool => "At least one atom is required to generate a formula"
  | .broken e => e.message

variable {σ : Type} [RandomSource σ]

/-- How often a node with depth left is a negation. -/
def negationRate : Fraction := ⟨3, 10⟩

namespace Formula

/-- Grows a formula of the given depth over the atoms `a`, `as`. -/
def grow (a : String) (as : List String) : Nat → StateM σ Formula
  | 0 => do return .atom (← RandomSource.choose a as) none
  | depth + 1 => do
      if (← RandomSource.unit).below negationRate then
        return .neg (← grow a as depth) none
      else
        let l ← grow a as depth
        let r ← grow a as depth
        return .bin (← RandomSource.choose .and [.or, .imp, .bicond]) l r none

/-- A random formula over a pool of atoms, numbered from `start`.  A depth
    below zero counts as zero. -/
def random (depth : Int) (pool : List String) (start : Int) (s : σ) :
    Except GrowthError (Formula × σ) :=
  match pool with
  | [] => .error .emptyPool
  | a :: as =>
      let (f, s) := (grow a as depth.toNat).run s
      if RandomSource.isBroken s then .error (.broken .mk) else .ok (f.numberFrom start, s)

/-- Random formulas in a row from one source.  With a `start` they are
    numbered as one series, and otherwise each from zero. -/
def randomSeries (depth : Int) (pool : List String) (start : Option Int) :
    Nat → σ → Except GrowthError (List Formula × σ)
  | 0, s => .ok ([], s)
  | count + 1, s => do
      let (f, s) ← random depth pool (start.getD 0) s
      let (fs, s) ← randomSeries depth pool (start.map (· + f.size)) count s
      return (f :: fs, s)

end Formula

/-- A practice question, with what was drawn for it. -/
structure Question where
  /-- The pool that the atoms were drawn from. -/
  atoms : List String
  depth : Nat
  formula : Formula
deriving DecidableEq, Repr

namespace Question

/-- The text of the question. -/
def text (q : Question) : String := q.formula.unicode

/-- Draws a question: two or three atoms, a depth from one to three, and a
    formula. -/
def draw : StateM σ Question := do
  let atoms := ["P", "Q", "R"].take (2 + (← RandomSource.index (σ := σ) 1).val)
  let depth := 1 + (← RandomSource.index (σ := σ) 2).val
  let f ← Formula.grow "P" (atoms.drop 1) depth
  return ⟨atoms, depth, f.number⟩

/-- Draws questions in a row from one source.  If it breaks down, the
    questions drawn before that are left. -/
def drawMany : Nat → σ → List Question × Except Breakdown σ
  | 0, s => ([], .ok s)
  | count + 1, s =>
      let (q, s) := draw.run s
      if RandomSource.isBroken s then ([], .error .mk)
      else
        let (qs, s) := drawMany count s
        (q :: qs, s)

end Question

end TruthTables
