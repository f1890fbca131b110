import TruthTables.Proofs.Truth

/-!
# Classification — the rows decide every assignment

    A table has finitely many rows, but what it says about its formula holds
    of all assignments that bind the formula's atoms, whatever data they bind
    and whatever else they bind.  The reason is `mem_final_iff`: the values in
    the rows are exactly the values that such assignments give.  One half is
    that every row is such an assignment; the other is that some row agrees
    with any given valuation (`exists_mem_rows`), and that a formula's truth
    depends on its leaves alone (`truth_congr`).
-/

namespace TruthTables

/-- Names that stand at no leaf do not matter. -/
theorem Formula.truth_congr {v w : String → Bool} {f : Formula}
    (h : ∀ name ∈ f.leafNames, v name = w name) : f.truth v = f.truth w := by
  induction f with
  | atom name i => exact h name (List.mem_singleton.mpr rfl)
  | neg f i ih =>
      show (!f.truth v) = !f.truth w
      rw [ih h]
  | bin op l r i ihl ihr =>
      have hl := ihl fun name hn => h name (List.mem_append.mpr (.inl hn))
      have hr := ihr fun name hn => h name (List.mem_append.mpr (.inr hn))
      show op.apply (l.truth v) (r.truth v) = op.apply (l.truth w) (r.truth w)
      rw [hl, hr]

namespace Assignment

/-- The names that are bound. -/
def keys (a : Assignment) : List String := a.map Prod.fst

/-- A bound name has a truth value, and no other name has one. -/
theorem isSome_truth?_iff {a : Assignment} {name : String} :
    (a.truth? name).isSome ↔ name ∈ a.keys := by
  induction a with
  | nil => exact iff_of_false (by intro h; cases h) List.not_mem_nil
  | cons p rest ih =>
      obtain ⟨key, d⟩ := p
      rw [truth?, List.lookup_cons, keys, List.map_cons, List.mem_cons]
      by_cases hkey : name = key
      · simp [hkey]
      · simp only [beq_eq_false_iff_ne.mpr hkey]
        exact ih.trans (or_iff_right hkey).symm

/-- Binding the atoms of a formula covers its leaves. -/
theorem covers_leafNames_iff {a : Assignment} {f : Formula} :
    a.Covers f.leafNames ↔ f.atoms ⊆ a.keys := by
  constructor
  · intro h name hn
    exact isSome_truth?_iff.mp (h name (Ascending.mem_ofList.mp hn))
  · intro h name hn
    exact isSome_truth?_iff.mpr (h (Ascending.mem_ofList.mpr hn))

/-- A name has the first value that is bound to it. -/
theorem valuation_cons (name key : String) (d : Datum) (a : Assignment) :
    valuation ((key, d) :: a) name = if name = key then d.truthy else a.valuation name := by
  rw [valuation, truth?, List.lookup_cons]
  by_cases h : name = key
  · simp [h]
  · simp only [beq_eq_false_iff_ne.mpr h, if_neg h]
    rfl

/-- Some row agrees with any given valuation on all names it was made for. -/
theorem exists_mem_rows (v : String → Bool) (names : List String) :
    ∃ a ∈ rows names, ∀ name ∈ names, a.valuation name = v name := by
  induction names with
  | nil => exact ⟨[], List.mem_singleton.mpr rfl, fun name hn => absurd hn List.not_mem_nil⟩
  | cons m ms ih =>
      obtain ⟨rest, hrest, hagree⟩ := ih
      refine ⟨(m, .truth (v m)) :: rest, mem_rows_cons.mpr ⟨v m, rest, hrest, rfl⟩, ?_⟩
      intro name hn
      rw [valuation_cons]
      split
      · rename_i hm
        rw [hm]
        rfl
      · exact hagree name ((List.mem_cons.mp hn).resolve_left ‹_›)

end Assignment

-- ── What the rows say ─────────────────────────────────────────────────────

/-- Evaluation succeeds wherever the atoms are bound. -/
theorem Formula.exists_eval {a : Assignment} {f : Formula} (h : f.atoms ⊆ a.keys) :
    ∃ b, f.eval a = .ok b :=
  ⟨_, eval_eq_truth (Assignment.covers_leafNames_iff.mpr h)⟩

/-- The values in the rows are the values that the assignments give which bind
    the atoms. -/
theorem Table.mem_final_iff {f : Formula} {b : Bool} :
    b ∈ (filled f).final ↔ ∃ a : Assignment, f.atoms ⊆ a.keys ∧ f.eval a = .ok b := by
  constructor
  · intro h
    obtain ⟨a, ha, rfl⟩ := List.mem_map.mp h
    have hcovers := covers_of_mem_filled_rows ha
    exact ⟨a, Assignment.covers_leafNames_iff.mp hcovers, Formula.eval_eq_truth hcovers⟩
  · rintro ⟨a, ha, heval⟩
    rw [Formula.eval_eq_truth (Assignment.covers_leafNames_iff.mpr ha)] at heval
    obtain ⟨row, hrow, hagree⟩ := Assignment.exists_mem_rows a.valuation f.atoms
    refine List.mem_map.mpr ⟨row, hrow, ?_⟩
    have htruth : f.truth row.valuation = f.truth a.valuation :=
      Formula.truth_congr fun name hn => hagree name (Ascending.mem_ofList.mpr hn)
    rw [htruth]
    exact Except.ok.inj heval

namespace Classification

/-- What the classification says of a formula: its value under all assignments
    that bind its atoms, or under some. -/
def Holds (f : Formula) : Classification → Prop
  | .tautology => ∀ a : Assignment, f.atoms ⊆ a.keys → f.eval a = .ok true
  | .contradiction => ∀ a : Assignment, f.atoms ⊆ a.keys → f.eval a = .ok false
  | .contingent => ∃ a b : Assignment, f.atoms ⊆ a.keys ∧ f.atoms ⊆ b.keys ∧
      f.eval a = .ok true ∧ f.eval b = .ok false

/-- A column is classified by which of the two values occur in it. -/
theorem ofValues_eq_iff {values : List Bool} (h : values ≠ []) (c : Classification) :
    ofValues values = c ↔
      match c with
      | .tautology => false ∉ values
      | .contradiction => true ∉ values
      | .contingent => true ∈ values ∧ false ∈ values := by
  have htrue : values.all (· = true) = true ↔ false ∉ values := by
    simp only [List.all_eq_true, decide_eq_true_eq]
    constructor
    · intro hall hf
      exact Bool.false_ne_true (hall false hf)
    · intro hf b hb
      cases b with
      | true => rfl
      | false => exact absurd hb hf
  have hfalse : values.all (· = false) = true ↔ true ∉ values := by
    simp only [List.all_eq_true, decide_eq_true_eq]
    constructor
    · intro hall ht
      exact Bool.false_ne_true (hall true ht).symm
    · intro ht b hb
      cases b with
      | true => exact absurd hb ht
      | false => rfl
  rw [ofValues]
  by_cases hf : false ∈ values
  · rw [if_neg (fun hall => htrue.mp hall hf)]
    by_cases ht : true ∈ values
    · rw [if_neg (fun hall => hfalse.mp hall ht)]
      cases c <;> simp [hf, ht]
    · rw [if_pos (hfalse.mpr ht)]
      cases c <;> simp [hf, ht]
  · have ht : true ∈ values := by
      obtain ⟨b, hb⟩ := List.exists_mem_of_ne_nil values h
      cases b with
      | true => exact hb
      | false => exact absurd hb hf
    rw [if_pos (htrue.mpr hf)]
    cases c <;> simp [hf, ht]

end Classification

/-- There is at least one row. -/
theorem Table.final_filled_ne_nil (f : Formula) : (filled f).final ≠ [] := by
  obtain ⟨row, hrow, -⟩ := Assignment.exists_mem_rows (fun _ => true) f.atoms
  exact List.ne_nil_of_mem (List.mem_map_of_mem hrow)

/-- A table gives its formula the classification that holds of it, no other. -/
theorem Table.classify_filled_iff (f : Formula) (c : Classification) :
    (filled f).classify = c ↔ c.Holds f := by
  rw [classify, Classification.ofValues_eq_iff (final_filled_ne_nil f)]
  -- a value that no assignment gives is given by none of the rows
  have hnone : ∀ b : Bool, b ∉ (filled f).final ↔
      ∀ a : Assignment, f.atoms ⊆ a.keys → f.eval a = .ok !b := by
    intro b
    rw [mem_final_iff]
    constructor
    · intro hno a ha
      obtain ⟨x, hx⟩ := Formula.exists_eval ha
      obtain rfl | rfl : x = b ∨ x = !b := by cases x <;> cases b <;> simp
      · exact absurd ⟨a, ha, hx⟩ hno
      · exact hx
    · rintro hall ⟨a, ha, hx⟩
      rw [hall a ha] at hx
      exact Bool.not_eq_self b |>.mp (Except.ok.inj hx)
  cases c with
  | tautology => exact hnone false
  | contradiction => exact hnone true
  | contingent =>
      show true ∈ (filled f).final ∧ false ∈ (filled f).final ↔ _
      rw [mem_final_iff, mem_final_iff]
      constructor
      · rintro ⟨⟨a, ha, hta⟩, b, hb, hfb⟩
        exact ⟨a, b, ha, hb, hta, hfb⟩
      · rintro ⟨a, b, ha, hb, hta, hfb⟩
        exact ⟨⟨a, ha, hta⟩, b, hb, hfb⟩

/-- **Classification is semantic truth.**  Every formula has a table.  The table
    calls it a tautology exactly when it is true under every assignment that
    binds its atoms, to whatever data and whatever else is bound; a contradiction
    exactly when it is false under all of them; and contingent exactly when two of
    them differ. -/
theorem Table.classify_iff_eval (f : Formula) :
    ∃ t, ofFormula f = .ok t ∧
      (t.classify = .tautology ↔
        ∀ a : Assignment, f.atoms ⊆ a.keys → f.eval a = .ok true) ∧
      (t.classify = .contradiction ↔
        ∀ a : Assignment, f.atoms ⊆ a.keys → f.eval a = .ok false) ∧
      (t.classify = .contingent ↔
        ∃ (a b : Assignment) (x y : Bool), f.atoms ⊆ a.keys ∧ f.atoms ⊆ b.keys ∧
          f.eval a = .ok x ∧ f.eval b = .ok y ∧ x ≠ y) := by
  refine ⟨filled f, ofFormula_eq_filled f, classify_filled_iff f .tautology,
    classify_filled_iff f .contradiction, (classify_filled_iff f .contingent).trans ?_⟩
  constructor
  · rintro ⟨a, b, ha, hb, hta, hfb⟩
    exact ⟨a, b, true, false, ha, hb, hta, hfb, Bool.false_ne_true.symm⟩
  · rintro ⟨a, b, x, y, ha, hb, hx, hy, hne⟩
    cases x with
    | true =>
        obtain rfl : y = false := by simpa using hne
        exact ⟨a, b, ha, hb, hx, hy⟩
    | false =>
        obtain rfl : y = true := by simpa using hne
        exact ⟨b, a, hb, ha, hy, hx⟩

end TruthTables
