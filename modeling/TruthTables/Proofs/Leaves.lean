import TruthTables.Draft
import TruthTables.Proofs.Classification

/-!
# Leaves — a draft fails at its first leaf without a truth value

    Evaluation enters both operands of every connective, the left one first.
    So whether a draft has a truth value, and what is reported when it has
    none, can be read off the row of its leaves: the first leaf that has a
    fault decides (`eval_of_firstFault`), whatever the connectives above it
    are.  A draft whose leaves have none is a formula (`exists_ofFormula`), and
    then its value is the classical one.

    **Main result** (`eval_stops_at_first_fault`): all of this at once, with
    what a value and a failure depend on.
-/

namespace TruthTables

-- ── One leaf ──────────────────────────────────────────────────────────────

/-- What stands at a leaf of a draft. -/
inductive Leaf where
  | atom (name : String)
  | blank
  | stray (d : Datum)

namespace Leaf

/-- Why a leaf has no truth value, if it has none. -/
def fault? (a : Assignment) : Leaf → Option EvalError
  | .atom name => if name ∈ a.keys then none else some (.missing ⟨name⟩)
  | .blank => some (.flaw .blank)
  | .stray d => some (.flaw (.stray d.sort))

/-- The leaves without a fault are the atoms that are bound. -/
theorem fault?_eq_none_iff {a : Assignment} {leaf : Leaf} :
    leaf.fault? a = none ↔ ∃ name ∈ a.keys, leaf = .atom name := by
  cases leaf with
  | atom name =>
      rw [fault?]
      by_cases hn : name ∈ a.keys
      · rw [if_pos hn]
        exact iff_of_true rfl ⟨name, hn, rfl⟩
      · rw [if_neg hn]
        refine iff_of_false (by simp) ?_
        rintro ⟨name', hn', heq⟩
        cases heq
        exact hn hn'
  | blank => simp [fault?]
  | stray d => simp [fault?]

/-- Only which names are bound matters, not to what. -/
theorem fault?_congr {a a' : Assignment} {leaf : Leaf}
    (h : ∀ name, leaf = .atom name → (name ∈ a'.keys ↔ name ∈ a.keys)) :
    leaf.fault? a' = leaf.fault? a := by
  cases leaf with
  | atom name => simp only [fault?, h name rfl]
  | blank => rfl
  | stray d => rfl

end Leaf

namespace Draft

-- ── The row of leaves ─────────────────────────────────────────────────────

/-- The leaves of a draft, left to right. -/
def leaves : Draft → List Leaf
  | .atom name _ => [.atom name]
  | .blank => [.blank]
  | .stray d => [.stray d]
  | .neg f _ => f.leaves
  | .bin _ l r _ => l.leaves ++ r.leaves

/-- The fault of the first leaf that has one. -/
def firstFault? (a : Assignment) (d : Draft) : Option EvalError :=
  d.leaves.findSome? (Leaf.fault? a)

theorem firstFault?_atom (a : Assignment) (name : String) (i : NodeId) :
    firstFault? a (.atom name i) = (Leaf.atom name).fault? a := by
  rw [firstFault?, leaves, List.findSome?_singleton]

theorem firstFault?_bin (a : Assignment) (op : BinOp) (l r : Draft) (i : NodeId) :
    firstFault? a (.bin op l r i) = (l.firstFault? a).or (r.firstFault? a) :=
  List.findSome?_append

/-- The first fault, with the leaves around the one that has it. -/
theorem firstFault?_eq_some_iff {a : Assignment} {d : Draft} {e : EvalError} :
    d.firstFault? a = some e ↔ ∃ before leaf after, d.leaves = before ++ leaf :: after ∧
      (∀ x ∈ before, ∃ name ∈ a.keys, x = .atom name) ∧ leaf.fault? a = some e := by
  rw [firstFault?, List.findSome?_eq_some_iff]
  simp only [Leaf.fault?_eq_none_iff]
  constructor
  · rintro ⟨before, leaf, after, hleaves, hleaf, hbefore⟩
    exact ⟨before, leaf, after, hleaves, hbefore, hleaf⟩
  · rintro ⟨before, leaf, after, hleaves, hbefore, hleaf⟩
    exact ⟨before, leaf, after, hleaves, hleaf, hbefore⟩

theorem firstFault?_eq_none_iff {a : Assignment} {d : Draft} :
    d.firstFault? a = none ↔ ∀ leaf ∈ d.leaves, ∃ name ∈ a.keys, leaf = .atom name := by
  rw [firstFault?, List.findSome?_eq_none_iff]
  simp only [Leaf.fault?_eq_none_iff]

-- ── Drafts that are formulas ──────────────────────────────────────────────

/-- A formula is evaluated as a draft like as a formula. -/
theorem eval_ofFormula (a : Assignment) (f : Formula) :
    (ofFormula f).eval a = (f.eval a).mapError .missing := by
  induction f with
  | atom name i =>
      simp only [ofFormula, eval, Formula.eval]
      cases a.truth? name <;> rfl
  | neg f i ih =>
      simp only [ofFormula, eval, Formula.eval, ih]
      cases f.eval a <;> rfl
  | bin op l r i ihl ihr =>
      simp only [ofFormula, eval, Formula.eval, ihl, ihr]
      cases l.eval a with
      | error e => rfl
      | ok x => cases r.eval a <;> rfl

/-- A draft without a fault is a formula whose leaves are bound. -/
theorem exists_ofFormula {a : Assignment} {d : Draft} (h : d.firstFault? a = none) :
    ∃ f, d = ofFormula f ∧ a.Covers f.leafNames := by
  induction d with
  | atom name i =>
      refine ⟨.atom name i, rfl, fun n hn => ?_⟩
      obtain rfl := List.mem_singleton.mp hn
      obtain ⟨m, hm, heq⟩ := firstFault?_eq_none_iff.mp h _ (List.mem_singleton.mpr rfl)
      cases heq
      exact Assignment.isSome_truth?_iff.mpr hm
  | blank => cases h
  | stray d => cases h
  | neg d i ih =>
      obtain ⟨f, rfl, hf⟩ := ih h
      exact ⟨.neg f i, rfl, hf⟩
  | bin op l r i ihl ihr =>
      rw [firstFault?_bin, Option.or_eq_none_iff] at h
      obtain ⟨f, rfl, hf⟩ := ihl h.1
      obtain ⟨g, rfl, hg⟩ := ihr h.2
      refine ⟨.bin op f g i, rfl, fun name hn => ?_⟩
      exact (List.mem_append.mp hn).elim (hf name) (hg name)

/-- Without a fault the draft has the classical truth value of its formula. -/
theorem eval_of_no_fault {a : Assignment} {d : Draft} (h : d.firstFault? a = none) :
    ∃ f, d = ofFormula f ∧ d.eval a = .ok (f.truth a.valuation) := by
  obtain ⟨f, rfl, hf⟩ := exists_ofFormula h
  refine ⟨f, rfl, ?_⟩
  rw [eval_ofFormula, Formula.eval_eq_truth hf]
  rfl

-- ── Drafts with a fault ───────────────────────────────────────────────────

/-- The first fault is what evaluation reports. -/
theorem eval_of_firstFault {a : Assignment} {d : Draft} {e : EvalError}
    (h : d.firstFault? a = some e) : d.eval a = .error e := by
  induction d with
  | atom name i =>
      rw [firstFault?_atom, Leaf.fault?] at h
      split at h
      · cases h
      · rename_i hn
        cases h
        rw [← Assignment.isSome_truth?_iff, Option.not_isSome_iff_eq_none] at hn
        simp only [eval, hn]
  | blank =>
      cases h
      rfl
  | stray d =>
      cases h
      rfl
  | neg d i ih =>
      rw [eval, ih h]
      rfl
  | bin op l r i ihl ihr =>
      rw [firstFault?_bin] at h
      cases hl : l.firstFault? a with
      | some e' =>
          -- the left operand fails, and the right one is not looked at
          rw [hl, Option.some_or] at h
          cases h
          rw [eval, ihl hl]
          rfl
      | none =>
          rw [hl, Option.none_or] at h
          obtain ⟨f, -, hf⟩ := eval_of_no_fault hl
          rw [eval, hf, ihr h]
          rfl

theorem eval_eq_error_iff {a : Assignment} {d : Draft} {e : EvalError} :
    d.eval a = .error e ↔ d.firstFault? a = some e := by
  refine ⟨fun h => ?_, eval_of_firstFault⟩
  cases hf : d.firstFault? a with
  | some e' =>
      rw [eval_of_firstFault hf] at h
      cases h
      rfl
  | none =>
      obtain ⟨f, -, hok⟩ := eval_of_no_fault hf
      rw [hok] at h
      cases h

/-- A draft has a truth value when it has no fault, and only then. -/
theorem eval_isOk_iff {a : Assignment} {d : Draft} :
    (∃ b, d.eval a = .ok b) ↔ d.firstFault? a = none := by
  constructor
  · rintro ⟨b, hb⟩
    cases hf : d.firstFault? a with
    | none => rfl
    | some e =>
        rw [eval_of_firstFault hf] at hb
        cases hb
  · intro h
    obtain ⟨f, -, hok⟩ := eval_of_no_fault h
    exact ⟨_, hok⟩

-- ── What the outcome depends on ───────────────────────────────────────────

/-- Two assignments with the same truth at the atoms of a draft evaluate it
    alike. -/
theorem eval_congr {a a' : Assignment} {d : Draft}
    (h : ∀ name, .atom name ∈ d.leaves → a'.truth? name = a.truth? name) :
    d.eval a' = d.eval a := by
  induction d with
  | atom name i =>
      simp only [eval, h name (List.mem_singleton.mpr rfl)]
  | blank => rfl
  | stray d => rfl
  | neg d i ih => rw [eval, eval, ih h]
  | bin op l r i ihl ihr =>
      rw [eval, eval, ihl fun name hn => h name (List.mem_append.mpr (.inl hn)),
        ihr fun name hn => h name (List.mem_append.mpr (.inr hn))]

/-- Two drafts with the same leaves fail alike under assignments that bind the
    same atoms of theirs. -/
theorem firstFault?_congr {a a' : Assignment} {d d' : Draft} (hleaves : d'.leaves = d.leaves)
    (h : ∀ name, .atom name ∈ d.leaves → (name ∈ a'.keys ↔ name ∈ a.keys)) :
    d'.firstFault? a' = d.firstFault? a := by
  have hfaults : d.leaves.map (Leaf.fault? a') = d.leaves.map (Leaf.fault? a) := by
    refine List.map_congr_left fun leaf hleaf => Leaf.fault?_congr fun name hname => h name ?_
    rw [← hname]
    exact hleaf
  have hfirst := congrArg (List.findSome? fun fault => fault) hfaults
  rw [List.findSome?_map, List.findSome?_map] at hfirst
  rw [firstFault?, hleaves]
  exact hfirst

-- a true left operand does not keep the right one from being missed
example : eval [("P", .truth true)] (.bin .or (.atom "P" none) (.atom "Q" none) none) =
    .error (.missing ⟨"Q"⟩) := rfl

end Draft

end TruthTables
