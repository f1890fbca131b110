/-!
# Formulas — atoms, negation and four binary connectives

    A formula is a finite tree.  Its leaves are atoms with a name; an inner
    node negates one operand or joins two.  Every node also carries an
    identity, which tells apart two occurrences of one subformula and means
    nothing else: the tables of two formulas that differ only in identities
    differ at most in which columns are pointed at.

    The order used throughout is post-order: left operand, right operand,
    then the node itself.  `Formula.number` hands out identities in that
    order, and `Formula.subformulas` lists the columns of a truth table in it.
-/

namespace TruthTables

/-- The connectives that join two formulas. -/
inductive BinOp where
  | and
  | or
  | imp
  | bicond
deriving DecidableEq, Repr

namespace BinOp

/-- Every binary connective, tightest first. -/
def all : List BinOp := [.and, .or, .imp, .bicond]

/-- The keyword that names the connective in token lists and debug forms. -/
def keyword : BinOp → String
  | .and => "AND"
  | .or => "OR"
  | .imp => "IMP"
  | .bicond => "BICOND"

/-- How tightly the connective binds: of two neighbours the greater one
    takes the operand between them, and of equals the left one. -/
def strength : BinOp → Nat
  | .bicond => 1
  | .imp => 2
  | .or => 3
  | .and => 4

/-- The truth function of the connective. -/
def apply : BinOp → Bool → Bool → Bool
  | .and, a, b => a && b
  | .or, a, b => a || b
  | .imp, a, b => !a || b
  | .bicond, a, b => a == b

end BinOp

/-- All connectives: negation and the binary ones. -/
inductive Connective where
  | not
  | bin (op : BinOp)
deriving DecidableEq, Repr

namespace Connective

/-- Every connective, tightest first. -/
def all : List Connective := .not :: BinOp.all.map .bin

/-- The keyword that names the connective. -/
def keyword : Connective → String
  | .not => "NOT"
  | .bin op => op.keyword

/-- The debug form of a connective, its keyword twice. -/
def debugForm (c : Connective) : String :=
  "<Connective." ++ c.keyword ++ ": '" ++ c.keyword ++ "'>"

/-- The binary connective, if it is one. -/
def bin? : Connective → Option BinOp
  | .not => none
  | .bin op => some op

end Connective

/-- The identity of a node.  A node that was never numbered has none, and
    having none counts as one more identity when nodes are matched. -/
abbrev NodeId := Option Int

/-- A propositional formula. -/
inductive Formula where
  | atom (name : String) (id : NodeId)
  | neg (operand : Formula) (id : NodeId)
  | bin (op : BinOp) (left right : Formula) (id : NodeId)
deriving DecidableEq, Repr

namespace Formula

/-- The identity of the root. -/
def id : Formula → NodeId
  | .atom _ i => i
  | .neg _ i => i
  | .bin _ _ _ i => i

/-- Whether the formula is a single atom. -/
def isAtomic : Formula → Bool
  | .atom .. => true
  | _ => false

/-- The formulas that the root's connective is applied to, left to right. -/
def operands : Formula → List Formula
  | .atom .. => []
  | .neg f _ => [f]
  | .bin _ l r _ => [l, r]

/-- All nodes in post-order, each as the formula below it. -/
def nodes : Formula → List Formula
  | f@(.atom ..) => [f]
  | f@(.neg g _) => g.nodes ++ [f]
  | f@(.bin _ l r _) => l.nodes ++ r.nodes ++ [f]

/-- The non-atomic nodes in post-order: the columns of the truth table. -/
def subformulas : Formula → List Formula
  | .atom .. => []
  | f@(.neg g _) => g.subformulas ++ [f]
  | f@(.bin _ l r _) => l.subformulas ++ r.subformulas ++ [f]

/-- The names at the leaves, left to right, repeats included. -/
def leafNames : Formula → List String
  | .atom name _ => [name]
  | .neg f _ => f.leafNames
  | .bin _ l r _ => l.leafNames ++ r.leafNames

/-- The number of nodes. -/
def size : Formula → Nat
  | .atom .. => 1
  | .neg f _ => f.size + 1
  | .bin _ l r _ => l.size + r.size + 1

/-- The same tree with every identity passed through `f`. -/
def mapIds (f : NodeId → NodeId) : Formula → Formula
  | .atom name i => .atom name (f i)
  | .neg g i => .neg (g.mapIds f) (f i)
  | .bin op l r i => .bin op (l.mapIds f) (r.mapIds f) (f i)

/-- The tree alone: the formula with no identities.  Two formulas are
    structurally equal when their bare trees are. -/
def bare : Formula → Formula := mapIds fun _ => none

/-- The identities that `count` nodes get when the first one gets `start`. -/
def idsFrom (start : Int) (count : Nat) : List Int :=
  (List.range count).map fun (k : Nat) => start + k

/-- Numbers the nodes in post-order, the first one with `start`. -/
def numberFrom (start : Int) : Formula → Formula
  | .atom name _ => .atom name (some start)
  | .neg f _ => .neg (f.numberFrom start) (some (start + f.size))
  | .bin op l r _ =>
      .bin op (l.numberFrom start) (r.numberFrom (start + l.size))
        (some (start + l.size + r.size))

/-- Numbers the nodes in post-order from zero. -/
def number : Formula → Formula := numberFrom 0

/-- What sort of node the root is, as progress messages say it. -/
def rootSort : Formula → String
  | .atom .. => "Var"
  | .neg .. => "Unary"
  | .bin .. => "Binary"

end Formula

end TruthTables
