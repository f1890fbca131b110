import TruthTables.Proofs.Generation

/-!
# Replies — what a formula is grown from

    Growing asks a source one question after the other.  A list of replies
    says which questions were asked and what was answered (`Gives`), for
    sources of any kind, and `Prompts` says which replies grow which formula,
    without a source: by depth, one rule for each way a node is made.

    The two fit together.  Whatever a source answers, it has given replies
    that prompt the formula it grew (`exists_prompts`); and any source that
    gives replies that prompt a formula grows this formula, and has been asked
    nothing else (`grow_of_prompts`).  So the replies alone tell how much is
    drawn (`Prompts.length_eq`).
-/

namespace TruthTables

/-- An answer of a random source, with the question that it answers. -/
inductive Reply where
  | unit (x : Fraction)
  | index (last : Nat) (i : Fin (last + 1))

namespace RandomSource

variable {σ : Type} [RandomSource σ]

/-- Asked these questions one after the other, the source gives these replies
    and is left in the state `t`. -/
def Gives (s : σ) : List Reply → σ → Prop
  | [], t => s = t
  | .unit x :: log, t => (unit.run s).1 = x ∧ Gives (unit.run s).2 log t
  | .index last i :: log, t =>
      ((index last).run s).1 = i ∧ Gives ((index last).run s).2 log t

/-- More replies are given from the state that the first ones leave. -/
theorem gives_append {s t : σ} {log log' : List Reply} :
    Gives s (log ++ log') t ↔ ∃ u, Gives s log u ∧ Gives u log' t := by
  induction log generalizing s with
  | nil =>
      constructor
      · exact fun h => ⟨s, rfl, h⟩
      · rintro ⟨u, rfl, h⟩
        exact h
  | cons reply log ih =>
      cases reply with
      | unit x =>
          simp only [List.cons_append, Gives, ih]
          constructor
          · rintro ⟨hx, u, hu, ht⟩
            exact ⟨u, ⟨hx, hu⟩, ht⟩
          · rintro ⟨u, ⟨hx, hu⟩, ht⟩
            exact ⟨hx, u, hu, ht⟩
      | index last i =>
          simp only [List.cons_append, Gives, ih]
          constructor
          · rintro ⟨hi, u, hu, ht⟩
            exact ⟨u, ⟨hi, hu⟩, ht⟩
          · rintro ⟨u, ⟨hi, hu⟩, ht⟩
            exact ⟨hi, u, hu, ht⟩

end RandomSource

namespace Formula

open RandomSource (Gives gives_append)

-- ── How many draws ────────────────────────────────────────────────────────

/-- The number of negations. -/
def negations : Formula → Nat
  | .atom .. => 0
  | .neg f _ => f.negations + 1
  | .bin _ l r _ => l.negations + r.negations

/-- The number of nodes that join two operands. -/
def joins : Formula → Nat
  | .atom .. => 0
  | .neg f _ => f.joins
  | .bin _ l r _ => l.joins + r.joins + 1

/-- How many draws a formula takes: one for each leaf and for each negation, and two
    for each join. -/
def draws : Formula → Nat
  | .atom .. => 1
  | .neg f _ => f.draws + 1
  | .bin _ l r _ => l.draws + r.draws + 2

/-- There is one leaf more than there are joins. -/
theorem draws_eq (f : Formula) : f.draws = 1 + f.negations + 3 * f.joins := by
  induction f with
  | atom name i => rfl
  | neg f i ih =>
      rw [draws, ih]
      simp only [negations, joins]
      omega
  | bin op l r i ihl ihr =>
      rw [draws, ihl, ihr]
      simp only [negations, joins]
      omega

-- ── What prompts what ─────────────────────────────────────────────────────

/-- The replies make a source grow the formula, of this depth and over the atoms
    `a`, `as`. -/
inductive Prompts (a : String) (as : List String) : Nat → List Reply → Formula → Prop where
  | leaf (i : Fin (as.length + 1)) :
      Prompts a as 0 [.index as.length i] (.atom ((a :: as).get i) none)
  | neg {depth : Nat} {log : List Reply} {f : Formula} {x : Fraction} :
      x.below negationRate = true → Prompts a as depth log f →
      Prompts a as (depth + 1) (.unit x :: log) (.neg f none)
  /-- The connective is drawn last. -/
  | bin {depth : Nat} {log log' : List Reply} {l r : Formula} {x : Fraction} (i : Fin 4) :
      x.below negationRate = false → Prompts a as depth log l → Prompts a as depth log' r →
      Prompts a as (depth + 1) (.unit x :: (log ++ (log' ++ [.index 3 i])))
        (.bin (BinOp.all.get i) l r none)

theorem Prompts.length_eq {a : String} {as : List String} {depth : Nat} {log : List Reply}
    {f : Formula} (h : Prompts a as depth log f) : log.length = f.draws := by
  induction h with
  | leaf i => rfl
  | neg _ _ ih => rw [List.length_cons, ih, draws]
  | bin i _ _ _ ihl ihr =>
      simp only [List.length_cons, List.length_append, List.length_nil, ihl, ihr, draws]
      omega

-- ── Growing, one node at a time ───────────────────────────────────────────

variable {σ : Type} [RandomSource σ] {a : String} {as : List String} {depth : Nat}

theorem run_grow_neg {s : σ} (h : (RandomSource.unit.run s).1.below negationRate = true) :
    (grow a as (depth + 1)).run s =
      let f := (grow a as depth).run (RandomSource.unit.run s).2
      (.neg f.1 none, f.2) := by
  show StateT.run (if (RandomSource.unit.run s).1.below negationRate then _ else _) _ = _
  rw [if_pos h]
  rfl

theorem run_grow_bin {s : σ} (h : (RandomSource.unit.run s).1.below negationRate = false) :
    (grow a as (depth + 1)).run s =
      let l := (grow a as depth).run (RandomSource.unit.run s).2
      let r := (grow a as depth).run l.2
      let i := (RandomSource.index 3).run r.2
      (.bin (BinOp.all.get i.1) l.1 r.1 none, i.2) := by
  show StateT.run (if (RandomSource.unit.run s).1.below negationRate then _ else _) _ = _
  rw [if_neg (by rw [h]; exact Bool.false_ne_true)]
  rfl

/-- What a source has replied prompts the formula that it grew. -/
theorem exists_prompts (a : String) (as : List String) (depth : Nat) :
    ∀ s : σ, ∃ log, Prompts a as depth log ((grow a as depth).run s).1 ∧
      Gives s log ((grow a as depth).run s).2 := by
  induction depth with
  | zero => exact fun s => ⟨_, .leaf _, rfl, rfl⟩
  | succ depth ih =>
      intro s
      obtain ⟨log, hprompts, hgives⟩ := ih (RandomSource.unit.run s).2
      cases h : (RandomSource.unit.run s).1.below negationRate with
      | true =>
          rw [run_grow_neg h]
          exact ⟨_, .neg h hprompts, rfl, hgives⟩
      | false =>
          rw [run_grow_bin h]
          obtain ⟨log', hprompts', hgives'⟩ := ih _
          refine ⟨_, .bin _ h hprompts hprompts', rfl, ?_⟩
          exact gives_append.mpr ⟨_, hgives, gives_append.mpr ⟨_, hgives', rfl, rfl⟩⟩

/-- A source that gives replies that prompt a formula grows it from them, and asks
    for no more. -/
theorem grow_of_prompts {log : List Reply} {f : Formula} (h : Prompts a as depth log f)
    {s t : σ} (hgives : Gives s log t) : (grow a as depth).run s = (f, t) := by
  induction h generalizing s t with
  | leaf i =>
      obtain ⟨rfl, rfl⟩ := hgives
      rfl
  | neg hx _ ih =>
      obtain ⟨rfl, hlog⟩ := hgives
      rw [run_grow_neg hx, ih hlog]
  | bin i hx _ _ ihl ihr =>
      obtain ⟨rfl, hlogs⟩ := hgives
      obtain ⟨u, hl, hlogs⟩ := gives_append.mp hlogs
      obtain ⟨v, hr, rfl, rfl⟩ := gives_append.mp hlogs
      rw [run_grow_bin hx, ihl hl]
      dsimp only
      rw [ihr hr]

/-- A random formula is a grown one with identities, unless the source has broken
    down. -/
theorem random_eq_ok_iff {depth start : Int} {s s' : σ} {f : Formula} :
    random depth (a :: as) start s = .ok (f, s') ↔
      ∃ g, (grow a as depth.toNat).run s = (g, s') ∧ RandomSource.isBroken s' = false ∧
        f = g.numberFrom start := by
  rcases hrun : (grow a as depth.toNat).run s with ⟨g, t⟩
  simp only [random, hrun]
  cases ht : RandomSource.isBroken t with
  | true =>
      rw [if_pos rfl]
      refine iff_of_false (fun h => by cases h) ?_
      rintro ⟨g', heq, hs', -⟩
      cases heq
      rw [ht] at hs'
      cases hs'
  | false =>
      rw [if_neg Bool.false_ne_true]
      constructor
      · intro h
        cases h
        exact ⟨g, rfl, ht, rfl⟩
      · rintro ⟨g', heq, -, rfl⟩
        cases heq
        rfl

end Formula

end TruthTables
