import TruthTables.Token

/-!
# The grammar — which symbol sequences spell which formulas

    Formulas are spelt in strata, one for each binary connective and a
    tightest one for operands:

        B ::= B BICOND I | I        I ::= I IMP O | O        O ::= O OR A | A
        A ::= A AND N | N           N ::= NOT N | VAR | LPAREN B RPAREN

    A connective repeats on its left in its own stratum, so it groups to the
    left, and takes the next tighter stratum on its right.  Parentheses leave
    no node.  The spelt formula carries no identities.

    `loosen` is the one structural fact used throughout: what a tight stratum
    spells, every looser one spells too.  A sequence is viable when some
    continuation makes it a whole formula.
-/

namespace TruthTables

/-- The strata of the grammar: the chains of one connective, and operands. -/
inductive Stratum where
  | chain (op : BinOp)
  | operand
deriving DecidableEq, Repr

namespace Stratum

/-- The stratum of whole formulas. -/
def whole : Stratum := .chain .bicond

/-- The stratum to the right of a connective, the next tighter one. -/
def rightOf : BinOp → Stratum
  | .bicond => .chain .imp
  | .imp => .chain .or
  | .or => .chain .and
  | .and => .operand

/-- How tightly a stratum binds. -/
def strength : Stratum → Nat
  | .chain op => op.strength
  | .operand => 5

/-- The symbols spell the formula in a stratum. -/
inductive Derives : Stratum → List Symbol → Formula → Prop where
  | single {op : BinOp} {ss : List Symbol} {f : Formula} :
      Derives (rightOf op) ss f → Derives (chain op) ss f
  | join {op : BinOp} {ss ts : List Symbol} {f g : Formula} :
      Derives (chain op) ss f → Derives (rightOf op) ts g →
      Derives (chain op) (ss ++ .connective (.bin op) :: ts) (.bin op f g none)
  | neg {ss : List Symbol} {f : Formula} :
      Derives operand ss f → Derives operand (.connective .not :: ss) (.neg f none)
  | letter (c : Char) : Derives operand [.letter c] (.atom (String.singleton c) none)
  | paren {ss : List Symbol} {f : Formula} :
      Derives whole ss f → Derives operand (.lparen :: (ss ++ [.rparen])) f

@[simp] theorem strength_chain (op : BinOp) : (chain op).strength = op.strength := rfl

@[simp] theorem strength_operand : operand.strength = 5 := rfl

/-- The stratum on the right binds tighter by one. -/
@[simp] theorem strength_rightOf (op : BinOp) :
    (rightOf op).strength = op.strength + 1 := by
  cases op <;> rfl

theorem strength_pos (s : Stratum) : 1 ≤ s.strength := by
  cases s with
  | chain op => cases op <;> decide
  | operand => decide

/-- Strata that bind equally tightly are the same. -/
theorem eq_of_strength_eq {r s : Stratum} (h : r.strength = s.strength) : r = s := by
  revert h
  cases r with
  | chain op =>
      cases s with
      | chain op' => cases op <;> cases op' <;> decide
      | operand => cases op <;> decide
  | operand =>
      cases s with
      | chain op' => cases op' <;> decide
      | operand => decide

theorem strength_le_five (s : Stratum) : s.strength ≤ 5 := by
  cases s with
  | chain op => cases op <;> decide
  | operand => decide

/-- What a stratum spells is spelt by every looser one.  Induction on how
    much tighter the given stratum binds; each step is one unit production. -/
theorem Derives.loosen {r s : Stratum} {ss : List Symbol} {f : Formula}
    (h : s.Derives ss f) (hr : r.strength ≤ s.strength) : r.Derives ss f := by
  induction hd : s.strength - r.strength generalizing r with
  | zero =>
      rw [eq_of_strength_eq (r := r) (s := s) (by omega)]
      exact h
  | succ d ih =>
      cases r with
      | chain op =>
          rw [strength_chain] at hr hd
          refine .single (ih ?_ ?_)
          · rw [strength_rightOf]; omega
          · rw [strength_rightOf]; omega
      | operand =>
          have hs := strength_le_five s
          rw [strength_operand] at hd
          omega

/-- A spelt formula carries no identities. -/
theorem Derives.bare_eq {s : Stratum} {ss : List Symbol} {f : Formula} (h : s.Derives ss f) :
    f.bare = f := by
  induction h with
  | single _ ih => exact ih
  | join _ _ ihf ihg =>
      simp only [Formula.bare] at ihf ihg
      simp only [Formula.bare, Formula.mapIds, ihf, ihg]
  | neg _ ih =>
      simp only [Formula.bare] at ih
      simp only [Formula.bare, Formula.mapIds, ih]
  | letter c => rfl
  | paren _ ih => exact ih

end Stratum

/-- The symbols spell some whole formula. -/
def WellFormed (ss : List Symbol) : Prop := ∃ f, Stratum.whole.Derives ss f

/-- Some continuation of the symbols spells a whole formula. -/
def Viable (ss : List Symbol) : Prop := ∃ rest, WellFormed (ss ++ rest)

/-- Whether the last symbol is one that an operand can end in. -/
def endsOperand (ss : List Symbol) : Bool :=
  match ss.getLast? with
  | some (.letter _) | some .rparen => true
  | _ => false

/-- Only the last symbol counts. -/
theorem endsOperand_concat (ss : List Symbol) (x : Symbol) :
    endsOperand (ss ++ [x]) = endsOperand [x] := by
  unfold endsOperand
  rw [List.getLast?_concat]
  rfl

/-- `k` is the length of the longest viable prefix of the symbols. -/
structure LongestViable (ss : List Symbol) (k : Nat) : Prop where
  le_length : k ≤ ss.length
  viable : Viable (ss.take k)
  longest : ∀ j, j ≤ ss.length → Viable (ss.take j) → j ≤ k

end TruthTables
