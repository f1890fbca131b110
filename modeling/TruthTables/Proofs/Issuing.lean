import TruthTables.Generator
import TruthTables.Proofs.Parsing

/-!
# Issuing — identities handed out while a formula is made

    A formula is numbered as a whole, after it has been read or grown.  Here
    the identities are handed out on the way instead, the next one to each
    node as it is made, and the outcome is the same: the order in which nodes
    are made is the order in which they are numbered.

    For a grown formula this is an induction on the depth (`growFrom_eq`).
    The reader makes nodes from the bottom up, and its stack holds finished
    operands that wait.  The invariant is that what stands on the stack is
    numbered from the bottom of the stack to its top, and the operand being
    read behind it (`State.numbered`); closing and reading keep it
    (`closeFrom_numbered`, `readFrom_numbered`).
-/

namespace TruthTables

-- ── Reading ───────────────────────────────────────────────────────────────

namespace Parser

/-- `close`, with the next identity for each node that it makes. -/
def closeFrom (strength : Nat) : Int → List Pending → Formula → Int × List Pending × Formula
  | next, .neg :: ps, f => closeFrom strength (next + 1) ps (.neg f (some next))
  | next, .left op l :: ps, f =>
      if strength ≤ op.strength then closeFrom strength (next + 1) ps (.bin op l f (some next))
      else (next, .left op l :: ps, f)
  | next, ps, f => (next, ps, f)

/-- Reads one token.  One that makes no node is read as ever. -/
def readFrom : Int × State → Token → Option (Int × State)
  | (next, ⟨ps, none⟩), t =>
      match t.symbol with
      | .letter c => some (next + 1, ⟨ps, some (.atom (String.singleton c) (some next))⟩)
      | _ => (readOperand ps t).map (next, ·)
  | (next, ⟨ps, some f⟩), t =>
      match t.symbol with
      | .connective (.bin op) =>
          let (next, qs, g) := closeFrom op.strength next ps f
          some (next, ⟨.left op g :: qs, none⟩)
      | .rparen =>
          match closeFrom 0 next ps f with
          | (next, .paren :: qs, g) => some (next, ⟨qs, some g⟩)
          | _ => none
      | _ => (readAfter ps f t).map (next, ·)

/-- The formula that has been read, if the input can end here. -/
def finishFrom : Int × State → Option Formula
  | (_, ⟨_, none⟩) => none
  | (next, ⟨ps, some f⟩) =>
      match closeFrom 0 next ps f with
      | (_, [], g) => some g
      | _ => none

/-- The formula that a token sequence spells, with the identities from zero
    handed out as its nodes are made. -/
def issue (ts : List Token) : Except ParseError Formula :=
  readAll readFrom finishFrom (0, .start) ts

/-- The operands on a stack, numbered from the bottom up, and the next identity. -/
def numberStack : List Pending → Int × List Pending
  | [] => (0, [])
  | .left op l :: ps =>
      ((numberStack ps).1 + l.size,
        .left op (l.numberFrom (numberStack ps).1) :: (numberStack ps).2)
  | p :: ps => ((numberStack ps).1, p :: (numberStack ps).2)

/-- The operand behind a stack is numbered after those on the stack. -/
def numberBehind (ps : List Pending) (f : Formula) : Int × List Pending × Formula :=
  ((numberStack ps).1 + f.size, (numberStack ps).2, f.numberFrom (numberStack ps).1)

/-- Everything in a state is numbered in the order of the input. -/
def State.numbered : State → Int × State
  | ⟨ps, none⟩ => ((numberStack ps).1, ⟨(numberStack ps).2, none⟩)
  | ⟨ps, some f⟩ => ((numberBehind ps f).1, ⟨(numberBehind ps f).2.1, some (numberBehind ps f).2.2⟩)

/-- Closing a numbered stack hands out the identities that numbering gives. -/
theorem closeFrom_numbered (n : Nat) (ps : List Pending) (f : Formula) :
    closeFrom n (numberBehind ps f).1 (numberBehind ps f).2.1 (numberBehind ps f).2.2 =
      numberBehind (close n ps f).1 (close n ps f).2 := by
  fun_induction close n ps f with
  | case1 ps f ih =>
      rw [← ih]
      show closeFrom n ((numberStack ps).1 + f.size + 1) _ _ =
        closeFrom n ((numberStack ps).1 + ((f.size + 1 : Nat) : Int)) _ _
      rw [Int.natCast_succ, ← Int.add_assoc]
      rfl
  | case2 op l ps f hle ih =>
      rw [← ih]
      show (if n ≤ op.strength then _ else _) = _
      rw [if_pos hle]
      show closeFrom n ((numberStack ps).1 + l.size + f.size + 1) _ _ =
        closeFrom n ((numberStack ps).1 + ((l.size + f.size + 1 : Nat) : Int)) _ _
      rw [Int.natCast_succ, Int.natCast_add, ← Int.add_assoc, ← Int.add_assoc]
      rfl
  | case3 op l ps f hlt =>
      show (if n ≤ op.strength then _ else _) = _
      rw [if_neg hlt]
      rfl
  | case4 ps f hneg hleft =>
      cases ps with
      | nil => rfl
      | cons p ps =>
          cases p with
          | paren => rfl
          | neg => exact absurd rfl (hneg ps)
          | left op l => exact absurd rfl (hleft op l ps)

/-- Reading a token keeps everything numbered. -/
theorem readFrom_numbered (s : State) (t : Token) :
    readFrom s.numbered t = (s.read t).map State.numbered := by
  obtain ⟨ps, operand⟩ := s
  obtain ⟨symbol, spelling, position⟩ := t
  cases operand with
  | none =>
      match symbol with
      | .letter _ | .lparen | .rparen | .connective .not | .connective (.bin _) => rfl
  | some f =>
      match symbol with
      | .letter _ | .lparen | .connective .not => rfl
      | .rparen =>
          simp only [State.numbered, readFrom, State.read, readAfter, closeFrom_numbered]
          rcases close_zero_cases ps f with ⟨g, hc⟩ | ⟨qs, g, hc⟩
          · rw [hc]
            rfl
          · rw [hc]
            rfl
      | .connective (.bin op) =>
          simp only [State.numbered, readFrom, State.read, readAfter, closeFrom_numbered]
          rfl

/-- At the end the whole formula is numbered from zero. -/
theorem finishFrom_numbered (s : State) : finishFrom s.numbered = s.finish.map Formula.number := by
  obtain ⟨ps, operand⟩ := s
  cases operand with
  | none => rfl
  | some f =>
      simp only [State.numbered, finishFrom, State.finish, closeFrom_numbered]
      rcases close_zero_cases ps f with ⟨g, hc⟩ | ⟨qs, g, hc⟩
      · rw [hc]
        rfl
      · rw [hc]
        rfl

/-- Of two readers whose states and results correspond, one reads what the other reads,
    and both are refused in the same words. -/
theorem follow_map {σ τ α β : Type} {read : σ → Token → Option σ} {finish : σ → Option α}
    {read' : τ → Token → Option τ} {finish' : τ → Option β} {φ : σ → τ} {g : α → β}
    (hread : ∀ s t, read' (φ s) t = (read s t).map φ)
    (hfinish : ∀ s, finish' (φ s) = (finish s).map g) (ts : List Token) :
    ∀ k s, follow read' finish' k (φ s) ts = (follow read finish k s ts).map g := by
  induction ts with
  | nil =>
      intro k s
      rw [follow, follow, hfinish]
      cases finish s <;> rfl
  | cons t ts ih =>
      intro k s
      rw [follow, follow, hread]
      cases read s t with
      | none => rfl
      | some s' => exact ih (k.pull t) s'

/-- **Reading hands out identities in post-order.** -/
theorem issue_eq_ofTokens (ts : List Token) : issue ts = Formula.ofTokens ts := by
  have hfollow := follow_map readFrom_numbered finishFrom_numbered ts .start .start
  rw [issue, Formula.ofTokens, readAll, readAll]
  split
  · rfl
  · exact hfollow

end Parser

-- ── Growing ───────────────────────────────────────────────────────────────

namespace Formula

variable {σ : Type} [RandomSource σ]

/-- Grows a formula of the given depth over the atoms `a`, `as`, with the next
    identity for each node as it is made. -/
def growFrom (a : String) (as : List String) : Nat → Int → StateM σ (Formula × Int)
  | 0, next => do return (.atom (← RandomSource.choose a as) (some next), next + 1)
  | depth + 1, next => do
      if (← RandomSource.unit).below negationRate then
        let (f, next) ← growFrom a as depth next
        return (.neg f (some next), next + 1)
      else
        let (l, next) ← growFrom a as depth next
        let (r, next) ← growFrom a as depth next
        let op ← RandomSource.choose .and [.or, .imp, .bicond]
        return (.bin op l r (some next), next + 1)

/-- **Growing hands out identities in post-order.** -/
theorem growFrom_eq (a : String) (as : List String) (depth : Nat) :
    ∀ next : Int, growFrom (σ := σ) a as depth next = do
      let f ← grow a as depth
      return (f.numberFrom next, next + f.size) := by
  induction depth with
  | zero =>
      intro next
      simp [growFrom, grow, numberFrom, size]
  | succ depth ih =>
      intro next
      simp only [growFrom, grow, ih, bind_assoc, pure_bind]
      refine bind_congr fun x => ?_
      split
      · simp [numberFrom, size, Int.add_assoc]
      · simp [numberFrom, size, Int.add_assoc]

end Formula

end TruthTables
