import TruthTables.Formula.Evaluation

/-!
# Drafts — trees put together by hand, perhaps not yet formulas

    A draft has the inner nodes of a formula, but a leaf may still be blank,
    or may be a datum that is no part of a formula.  Whatever walks a draft
    meets its leaves from left to right and stops at the first one that it
    cannot use.
-/

namespace TruthTables

/-- A tree whose leaves need not be atoms. -/
inductive Draft where
  | atom (name : String) (id : NodeId)
  | blank
  | stray (d : Datum)
  | neg (operand : Draft) (id : NodeId)
  | bin (op : BinOp) (left right : Draft) (id : NodeId)

/-- A leaf that is no atom. -/
inductive Flaw where
  /-- A blank leaf, which nothing can be done with. -/
  | blank
  /-- A datum where a walk that looks at every node expects a formula. -/
  | stray (sort : String)
  /-- A datum where a walk that trusts the operands enters one. -/
  | inert (sort : String)
deriving DecidableEq, Repr

/-- What is wrong with the leaf, in words; there are none for a blank one. -/
def Flaw.message : Flaw → String
  | .blank => ""
  | .stray sort => "Unknown formula node: " ++ sort
  | .inert sort => "'" ++ sort ++ "' object has no attribute 'accept'"

/-- A binary node was asked for with the connective of negation. -/
inductive NotBinary where
  | mk
deriving DecidableEq, Repr

/-- What was asked for, in words. -/
def NotBinary.message (_ : NotBinary) : String := "NOT is not a binary connective"

/-- Why a draft has no truth value. -/
inductive EvalError where
  | missing (e : MissingAtom)
  | flaw (e : Flaw)
deriving DecidableEq, Repr

/-- The cause in words. -/
def EvalError.message : EvalError → String
  | .missing e => e.message
  | .flaw e => e.message

namespace Draft

/-- A node that joins two drafts; negation does not join. -/
def join (c : Connective) (l r : Draft) (id : NodeId) : Except NotBinary Draft :=
  match c with
  | .not => .error .mk
  | .bin op => .ok (.bin op l r id)

/-- A formula is a draft without flaws. -/
def ofFormula : Formula → Draft
  | .atom name i => .atom name i
  | .neg f i => .neg (ofFormula f) i
  | .bin op l r i => .bin op (ofFormula l) (ofFormula r) i

/-- The formula that a draft amounts to, or the first flaw from the left. -/
def toFormula : Draft → Except Flaw Formula
  | .atom name i => .ok (.atom name i)
  | .blank => .error .blank
  | .stray d => .error (.stray d.sort)
  | .neg f i => do return .neg (← f.toFormula) i
  | .bin op l r i => do
      let x ← l.toFormula
      let y ← r.toFormula
      return .bin op x y i

/-- The same for a walk that looks at the root only before it enters the
    tree: a stray datum further down is entered as if it were a formula. -/
def enter (d : Draft) : Except Flaw Formula :=
  match d, d.toFormula with
  | .stray _, r => r
  | _, .error (.stray sort) => .error (.inert sort)
  | _, r => r

/-- The truth value under an assignment, both operands always evaluated. -/
def eval (a : Assignment) : Draft → Except EvalError Bool
  | .atom name _ =>
      match a.truth? name with
      | some b => .ok b
      | none => .error (.missing ⟨name⟩)
  | .blank => .error (.flaw .blank)
  | .stray d => .error (.flaw (.stray d.sort))
  | .neg f _ => do return !(← f.eval a)
  | .bin op l r _ => do
      let x ← l.eval a
      let y ← r.eval a
      return op.apply x y

/-- Equality up to identities; stray data are compared as data. -/
def sameShape : Draft → Draft → Bool
  | .atom m _, .atom n _ => m = n
  | .blank, .blank => true
  | .stray d, .stray e => d.same e
  | .neg f _, .neg g _ => f.sameShape g
  | .bin op l r _, .bin op' l' r' _ => op = op' && l.sameShape l' && r.sameShape r'
  | _, _ => false

/-- The sort of the first leaf from the left that keeps the draft from being
    a key. -/
def notKey? : Draft → Option String
  | .atom .. | .blank => none
  | .stray d => if d.isKey then none else some d.sort
  | .neg f _ => f.notKey?
  | .bin _ l r _ => l.notKey?.or r.notKey?

/-- Why a draft cannot be a key, in words. -/
def notKeyMessage (sort : String) : String := "unhashable type: '" ++ sort ++ "'"

/-- The debug form of an identity. -/
def idForm : NodeId → String
  | none => "None"
  | some i => toString i

/-- The debug form of a draft: every node with its parts by name. -/
def debugForm : Draft → String
  | .atom name i => "Var(name=" ++ Text.quote name ++ ", node_id=" ++ idForm i ++ ")"
  | .blank => "Formula()"
  | .stray d => d.debugForm
  | .neg f i => "Unary(operand=" ++ f.debugForm ++ ", node_id=" ++ idForm i ++ ")"
  | .bin op l r i =>
      "Binary(op=" ++ (Connective.bin op).debugForm ++ ", left=" ++ l.debugForm ++
        ", right=" ++ r.debugForm ++ ", node_id=" ++ idForm i ++ ")"

end Draft

end TruthTables
