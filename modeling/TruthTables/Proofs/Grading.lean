import TruthTables.Grading
import TruthTables.Proofs.Truth

/-!
# Grading — cell by cell, and exact

    A cell is right for a formula and a row when something was entered and
    equals the truth value of the formula there (`Datum.IsValueOf`).  A report
    is complete exactly when all its grades are (`isComplete_iff`), and then
    every cell of the graded column is right (`isValueOf_of_isComplete`).

    Each grade depends on its own cell alone (`getElem?_gradesOf`), so another
    guess in one row changes the grade of that row and no other
    (`gradesOf_set`).  The counts follow the grades (`Report.counts_add`,
    `Report.count_set_correct`).

    **Main result** (`grade_cell_by_cell`): when a column can be graded, and what
    the report then says of every cell and of every cell that is put right.
-/

namespace TruthTables

/-- Whole numbers are compared as such. -/
theorem Number.same_ofInt (m n : Int) : (ofInt m).same (ofInt n) = decide (m = n) := by
  rw [Bool.eq_iff_iff]
  simp only [ofInt, same, Bool.and_eq_true, Bool.or_eq_true, decide_eq_true_eq, Int.sub_self,
    Int.toNat_zero, Nat.pow_eq, Nat.pow_zero, Nat.mul_one, decide_eq_decide]
  omega

namespace Datum

/-- To agree with a truth value is to equal it as a datum. -/
theorem agrees_eq_same (d : Datum) (b : Bool) : d.agrees b = d.same (.truth b) := by
  cases d with
  | null => simp [agrees, same, number?]
  | truth c =>
      simp only [agrees, same, number?, Number.same_ofInt]
      cases b <;> cases c <;> rfl
  | int n =>
      simp only [agrees, same, number?, Number.same_ofInt]
      cases b <;> rfl
  | real x =>
      simp only [agrees, same, number?]
      cases b <;> rfl
  | text s => simp [agrees, same, number?]
  | list items => simp [agrees, same, number?]
  | record fields => simp [agrees, same, number?]

/-- Something was entered, and it equals the truth value of the formula under
    the assignment. -/
def IsValueOf (d : Datum) (f : Formula) (a : Assignment) : Prop :=
  d.isNull = false ∧ ∃ b, f.eval a = .ok b ∧ d.same (.truth b) = true

/-- The truth value itself is right. -/
theorem isValueOf_truth {f : Formula} {a : Assignment} {b : Bool} (h : f.eval a = .ok b) :
    (truth b).IsValueOf f a := by
  refine ⟨rfl, b, h, ?_⟩
  rw [← agrees_eq_same]
  exact decide_eq_true rfl

end Datum

theorem Feedback.grade_eq_correct_iff (d : Datum) (b : Bool) :
    Feedback.grade d b = .correct ↔ d.isNull = false ∧ d.same (.truth b) = true := by
  rw [← Datum.agrees_eq_same, Feedback.grade]
  cases d.isNull with
  | true => simp
  | false => cases d.agrees b <;> simp

theorem Feedback.grade_eq_missing_iff (d : Datum) (b : Bool) :
    Feedback.grade d b = .missing ↔ d.isNull = true := by
  rw [Feedback.grade]
  cases d.isNull with
  | true => simp
  | false => cases d.agrees b <;> simp

/-- A cell is graded correct for the classical value when it is right. -/
theorem Feedback.grade_truth_eq_correct_iff {f : Formula} {a : Assignment}
    (h : a.Covers f.leafNames) (d : Datum) :
    Feedback.grade d (f.truth a.valuation) = .correct ↔ d.IsValueOf f a := by
  rw [Feedback.grade_eq_correct_iff, Datum.IsValueOf, Formula.eval_eq_truth h]
  constructor
  · rintro ⟨hnull, hsame⟩
    exact ⟨hnull, _, rfl, hsame⟩
  · rintro ⟨hnull, b, hb, hsame⟩
    cases hb
    exact ⟨hnull, hsame⟩

/-- A report is complete when every grade is. -/
theorem Report.isComplete_iff (r : Report) :
    r.isComplete = true ↔ ∀ x ∈ r.feedback, x = .correct := by
  simp only [isComplete, incorrect, missing, Bool.and_eq_true, decide_eq_true_eq,
    List.count_eq_zero]
  constructor
  · rintro ⟨hi, hm⟩ x hx
    cases x with
    | correct => rfl
    | incorrect => exact absurd hx hi
    | missing => exact absurd hx hm
  · intro h
    refine ⟨fun hx => ?_, fun hx => ?_⟩
    · exact absurd (h _ hx) (by decide)
    · exact absurd (h _ hx) (by decide)

theorem Report.isComplete_replicate (column : Int) (n : Nat) :
    (Report.mk column (List.replicate n .correct)).isComplete = true := by
  refine (isComplete_iff _).mpr fun x hx => ?_
  exact List.eq_of_mem_replicate hx

/-- Every grade is one of the three. -/
theorem Report.counts_add (r : Report) :
    r.correct + r.incorrect + r.missing = r.feedback.length := by
  simp only [correct, incorrect, missing]
  induction r.feedback with
  | nil => rfl
  | cons x xs ih =>
      cases x <;> simp only [List.count_cons, List.length_cons] <;> simp <;> omega

/-- When a grade becomes correct that was not, one more is correct, one fewer is as it
    was, and as many as before are otherwise. -/
theorem Report.count_set_correct {grades : List Feedback} {k : Nat} {x : Feedback}
    (h : grades[k]? = some x) (hx : x ≠ .correct) :
    (grades.set k .correct).count .correct = grades.count .correct + 1 ∧
      (grades.set k .correct).count x + 1 = grades.count x ∧
      ∀ y, y ≠ .correct → y ≠ x → (grades.set k .correct).count y = grades.count y := by
  obtain ⟨hk, rfl⟩ := List.getElem?_eq_some_iff.mp h
  have hpos : 0 < grades.count grades[k] := List.count_pos_iff.mpr (List.getElem_mem hk)
  refine ⟨?_, ?_, ?_⟩
  · rw [List.count_set hk, if_neg (by simpa using hx)]
    rfl
  · rw [List.count_set hk, if_pos BEq.rfl, if_neg (by simpa using hx.symm)]
    omega
  · intro y hy hyx
    rw [List.count_set hk, if_neg (by simpa using hyx.symm), if_neg (by simpa using hy.symm)]
    rfl

namespace Table

-- ── When a column is graded ───────────────────────────────────────────────

/-- The grades of the guesses for a column, row by row. -/
def gradesOf (t : Table) (c : Nat) (guesses : List Datum) : List Feedback :=
  List.zipWith Feedback.grade guesses (t.columnValues c)

theorem grade_of_outside {t : Table} {column : Int} (guesses : List Datum)
    (h : ¬ (0 ≤ column ∧ column < t.columns.length)) :
    t.grade column guesses = .error (.noColumn column t.columns.length) :=
  if_pos h

theorem grade_of_length_ne {t : Table} {c : Nat} {guesses : List Datum}
    (hc : c < t.columns.length) (h : guesses.length ≠ t.rows.length) :
    t.grade c guesses = .error (.rowCount t.rows.length guesses.length) := by
  rw [grade, if_neg (by omega), if_pos h]

theorem grade_of_length_eq {t : Table} {c : Nat} {guesses : List Datum}
    (hc : c < t.columns.length) (h : guesses.length = t.rows.length) :
    t.grade c guesses = .ok ⟨c, t.gradesOf c guesses⟩ := by
  rw [grade, if_neg (by omega), if_neg (by omega)]
  rfl

/-- A graded column is one of the columns, and has a guess for each row. -/
theorem grade_eq_ok_iff {t : Table} {c : Nat} {guesses : List Datum} {r : Report} :
    t.grade c guesses = .ok r ↔ c < t.columns.length ∧ guesses.length = t.rows.length ∧
      r = ⟨c, t.gradesOf c guesses⟩ := by
  constructor
  · intro h
    by_cases hc : c < t.columns.length
    · by_cases hlength : guesses.length = t.rows.length
      · rw [grade_of_length_eq hc hlength] at h
        cases h
        exact ⟨hc, hlength, rfl⟩
      · rw [grade_of_length_ne hc hlength] at h
        cases h
    · rw [grade_of_outside guesses (by omega)] at h
      cases h
  · rintro ⟨hc, hlength, rfl⟩
    exact grade_of_length_eq hc hlength

/-- The true values are all graded correct. -/
theorem gradesOf_truth (t : Table) (c : Nat) :
    t.gradesOf c ((t.columnValues c).map .truth) =
      List.replicate (t.columnValues c).length .correct := by
  have hgrade : ∀ b : Bool, Feedback.grade (.truth b) b = .correct := by
    intro b
    cases b <;> rfl
  rw [gradesOf, List.zipWith_map_left, List.zipWith_self, ← List.map_const']
  exact List.map_congr_left fun b _ => hgrade b

theorem grade_truth {t : Table} {c : Nat} (hc : c < t.columns.length)
    (h : (t.columnValues c).length = t.rows.length) :
    t.grade c ((t.columnValues c).map .truth) =
      .ok ⟨c, List.replicate t.rows.length .correct⟩ := by
  rw [grade_of_length_eq hc (by rw [List.length_map, h]), gradesOf_truth, h]

-- ── The grades of a filled table ──────────────────────────────────────────

/-- The values of a column of a filled table, row by row. -/
theorem columnValues_filled {root col : Formula} {c : Nat}
    (hc : (filled root).columns[c]? = some col) :
    (filled root).columnValues c = (filled root).rows.map fun a => col.truth a.valuation := by
  rw [columnValues, getElem?_filled_values hc, Option.getD_some]

variable {root col : Formula} {c k : Nat} {guesses : List Datum} {a : Assignment} {d : Datum}

theorem length_gradesOf (hc : (filled root).columns[c]? = some col)
    (h : guesses.length = (filled root).rows.length) :
    ((filled root).gradesOf c guesses).length = (filled root).rows.length := by
  rw [gradesOf, List.length_zipWith, columnValues_filled hc, List.length_map, h, Nat.min_self]

/-- The grade of a cell, from its own guess and row. -/
theorem getElem?_gradesOf (hc : (filled root).columns[c]? = some col)
    (ha : (filled root).rows[k]? = some a) (hd : guesses[k]? = some d) :
    ((filled root).gradesOf c guesses)[k]? = some (Feedback.grade d (col.truth a.valuation)) := by
  rw [gradesOf, List.getElem?_zipWith, hd, columnValues_filled hc, List.getElem?_map, ha]
  rfl

/-- Another guess in one row changes the grade of that row and no other. -/
theorem gradesOf_set (hc : (filled root).columns[c]? = some col)
    (ha : (filled root).rows[k]? = some a) (hk : k < guesses.length) :
    (filled root).gradesOf c (guesses.set k d) =
      ((filled root).gradesOf c guesses).set k (Feedback.grade d (col.truth a.valuation)) := by
  refine List.ext_getElem? fun j => ?_
  by_cases hj : k = j
  · subst hj
    have hlt : k < ((filled root).gradesOf c guesses).length :=
      (List.getElem?_eq_some_iff.mp
        (getElem?_gradesOf hc ha (List.getElem?_eq_getElem hk))).1
    rw [List.getElem?_set_self hlt]
    exact getElem?_gradesOf hc ha (List.getElem?_set_self hk)
  · rw [List.getElem?_set_ne hj, gradesOf, gradesOf, List.getElem?_zipWith,
      List.getElem?_zipWith, List.getElem?_set_ne hj]

/-- A column is graded complete when each of its cells is right. -/
theorem isComplete_gradesOf_iff (hc : (filled root).columns[c]? = some col)
    (h : guesses.length = (filled root).rows.length) (column : Int) :
    (Report.mk column ((filled root).gradesOf c guesses)).isComplete = true ↔
      ∀ (k : Nat) (a : Assignment) (d : Datum), (filled root).rows[k]? = some a →
        guesses[k]? = some d → d.IsValueOf col a := by
  have hcovers : ∀ {k : Nat} {a : Assignment}, (filled root).rows[k]? = some a →
      a.Covers col.leafNames := by
    intro k a ha
    exact covers_column (List.mem_of_getElem? ha) (List.mem_of_getElem? hc)
  rw [Report.isComplete_iff]
  constructor
  · intro hall k a d ha hd
    have hgrade := List.mem_of_getElem? (getElem?_gradesOf hc ha hd)
    exact (Feedback.grade_truth_eq_correct_iff (hcovers ha) d).mp (hall _ hgrade)
  · intro hright x hx
    obtain ⟨k, hk⟩ := List.mem_iff_getElem?.mp hx
    have hlt : k < (filled root).rows.length := by
      rw [← length_gradesOf hc h]
      exact (List.getElem?_eq_some_iff.mp hk).1
    have ha := List.getElem?_eq_getElem hlt
    have hd : guesses[k]? = some guesses[k] := List.getElem?_eq_getElem (by omega)
    rw [getElem?_gradesOf hc ha hd] at hk
    cases hk
    exact (Feedback.grade_truth_eq_correct_iff (hcovers ha) _).mpr (hright k _ _ ha hd)

/-- When the report on a column is complete, each of its cells is right. -/
theorem isValueOf_of_isComplete {r : Report} (hr : (filled root).grade c guesses = .ok r)
    (hcomplete : r.isComplete = true) (hc : (filled root).columns[c]? = some col)
    (ha : (filled root).rows[k]? = some a) (hd : guesses[k]? = some d) : d.IsValueOf col a := by
  obtain ⟨-, hlength, rfl⟩ := grade_eq_ok_iff.mp hr
  exact (isComplete_gradesOf_iff hc hlength c).mp hcomplete k a d ha hd

-- ── Exactness ─────────────────────────────────────────────────────────────

/-- The report `r` grades the guesses for column `c` of the table, headed by `col`, cell
    by cell. -/
structure Grades (t : Table) (c : Nat) (col : Formula) (guesses : List Datum) (r : Report) :
    Prop where
  column : r.column = c
  /-- There is a grade for each row. -/
  length : r.feedback.length = t.rows.length
  /-- A cell is missing when nothing was entered. -/
  missing_iff : ∀ (k : Nat) (d : Datum), guesses[k]? = some d →
    (r.feedback[k]? = some .missing ↔ d.isNull = true)
  /-- It is correct when it is right; otherwise it is incorrect. -/
  correct_iff : ∀ (k : Nat) (a : Assignment) (d : Datum), t.rows[k]? = some a →
    guesses[k]? = some d → (r.feedback[k]? = some .correct ↔ d.IsValueOf col a)
  counts : r.correct + r.incorrect + r.missing = t.rows.length
  isComplete_iff : r.isComplete = true ↔ ∀ (k : Nat) (a : Assignment) (d : Datum),
    t.rows[k]? = some a → guesses[k]? = some d → d.IsValueOf col a

/-- The report `r'` is `r` with one grade more that is correct, in row `k`, and one fewer
    of those that the grade was before. -/
structure PutRight (k : Nat) (r r' : Report) : Prop where
  eq : r' = ⟨r.column, r.feedback.set k .correct⟩
  correct : r'.correct = r.correct + 1
  incorrect : r.feedback[k]? = some .incorrect →
    r'.incorrect + 1 = r.incorrect ∧ r'.missing = r.missing
  missing : r.feedback[k]? = some .missing →
    r'.missing + 1 = r.missing ∧ r'.incorrect = r.incorrect

theorem grades_filled (hc : (filled root).columns[c]? = some col)
    (h : guesses.length = (filled root).rows.length) :
    (filled root).Grades c col guesses ⟨c, (filled root).gradesOf c guesses⟩ where
  column := rfl
  length := length_gradesOf hc h
  missing_iff := by
    intro k d hd
    have hlt : k < (filled root).rows.length := by
      rw [← h]
      exact (List.getElem?_eq_some_iff.mp hd).1
    rw [getElem?_gradesOf hc (List.getElem?_eq_getElem hlt) hd, Option.some_inj]
    exact Feedback.grade_eq_missing_iff d _
  correct_iff := by
    intro k a d ha hd
    rw [getElem?_gradesOf hc ha hd, Option.some_inj]
    exact Feedback.grade_truth_eq_correct_iff
      (covers_column (List.mem_of_getElem? ha) (List.mem_of_getElem? hc)) d
  counts := (Report.counts_add _).trans (length_gradesOf hc h)
  isComplete_iff := isComplete_gradesOf_iff hc h c

/-- A cell that was not correct is put right. -/
theorem putRight_of_set {r : Report} (hk : k < r.feedback.length)
    (hwrong : r.feedback[k]? ≠ some .correct) :
    PutRight k r ⟨r.column, r.feedback.set k .correct⟩ := by
  have hget : r.feedback[k]? = some r.feedback[k] := List.getElem?_eq_getElem hk
  have hne : r.feedback[k] ≠ .correct := by
    intro heq
    exact hwrong (hget.trans (congrArg some heq))
  obtain ⟨hcorrect, hfewer, hothers⟩ := Report.count_set_correct hget hne
  refine ⟨rfl, hcorrect, ?_, ?_⟩
  · intro hx
    rw [hx] at hget
    rw [← Option.some.inj hget] at hfewer hothers
    exact ⟨hfewer, hothers .missing (by decide) (by decide)⟩
  · intro hx
    rw [hx] at hget
    rw [← Option.some.inj hget] at hfewer hothers
    exact ⟨hfewer, hothers .incorrect (by decide) (by decide)⟩

/-- **Grading is exact, cell by cell.**  Take the table of any formula.  A column can be
    graded unless there is no such column or the guesses are not as many as the
    rows, and the first of the two is reported first.

    The report on a column grades each cell by itself: missing if nothing was
    entered, correct if the entry equals the truth value of the column's formula
    in the row.  The three counts add up to the rows, and the report is complete
    exactly when every cell is right.

    Another guess in one row changes the grade of that row only.  If the cell was
    wrong or blank and the new guess is right, one more cell is correct, one
    fewer is what the cell was, and nothing else changes. -/
theorem grade_cell_by_cell (root : Formula) :
    ∃ t, ofFormula root = .ok t ∧ ∀ (column : Int) (guesses : List Datum),
      (t.grade column guesses = .error (.noColumn column t.columns.length) ↔
        ¬ (0 ≤ column ∧ column < t.columns.length)) ∧
      ∀ (c : Nat) (col : Formula), column = c → t.columns[c]? = some col →
        (t.grade column guesses = .error (.rowCount t.rows.length guesses.length) ↔
          guesses.length ≠ t.rows.length) ∧
        (guesses.length = t.rows.length →
          ∃ r, t.grade column guesses = .ok r ∧ t.Grades c col guesses r ∧
            ∀ (k : Nat) (a : Assignment), t.rows[k]? = some a →
              (∃ b, col.eval a = .ok b ∧ (Datum.truth b).IsValueOf col a) ∧
              ∀ d : Datum, ∃ r', t.grade column (guesses.set k d) = .ok r' ∧
                (∃ x, r' = ⟨column, r.feedback.set k x⟩) ∧
                (d.IsValueOf col a → r.feedback[k]? ≠ some .correct → PutRight k r r')) := by
  refine ⟨filled root, ofFormula_eq_filled root, fun column guesses => ⟨⟨?inside, ?outside⟩, ?_⟩⟩
  case inside =>
    rintro h ⟨hlow, hhigh⟩
    obtain ⟨c, rfl⟩ := Int.eq_ofNat_of_zero_le hlow
    have hc : c < (filled root).columns.length := by omega
    by_cases hlength : guesses.length = (filled root).rows.length
    · rw [grade_of_length_eq hc hlength] at h
      cases h
    · rw [grade_of_length_ne hc hlength] at h
      cases h
  case outside => exact grade_of_outside guesses
  rintro c col rfl hc
  have hlt : c < (filled root).columns.length := (List.getElem?_eq_some_iff.mp hc).1
  refine ⟨⟨?_, grade_of_length_ne hlt⟩, ?_⟩
  · intro h hlength
    rw [grade_of_length_eq hlt hlength] at h
    cases h
  · intro hlength
    refine ⟨_, grade_of_length_eq hlt hlength, grades_filled hc hlength, fun k a ha => ?_⟩
    have hcovers := covers_column (List.mem_of_getElem? ha) (List.mem_of_getElem? hc)
    have heval := Formula.eval_eq_truth hcovers
    have hk : k < guesses.length := by
      rw [hlength]
      exact (List.getElem?_eq_some_iff.mp ha).1
    refine ⟨⟨_, heval, Datum.isValueOf_truth heval⟩, fun d => ?_⟩
    have hset := gradesOf_set (d := d) hc ha hk
    have hgrade := grade_of_length_eq hlt ((List.length_set (a := d) (i := k)).trans hlength)
    rw [hset] at hgrade
    refine ⟨_, hgrade, ⟨_, rfl⟩, ?_⟩
    intro hd hwrong
    rw [(Feedback.grade_truth_eq_correct_iff hcovers d).mpr hd]
    refine putRight_of_set ?_ hwrong
    rwa [length_gradesOf hc hlength, ← hlength]

/-- Zero stands for false, and so puts a cell right that held true. -/
theorem grade_cell_by_cell_zero :
    ∃ t r r', ofFormula (.neg (.atom "P" none) none) = .ok t ∧
      t.grade 0 [.truth true, .null] = .ok r ∧ t.grade 0 [.int 0, .null] = .ok r' ∧
      PutRight 0 r r' := by
  obtain ⟨t, ht, hall⟩ := grade_cell_by_cell (.neg (.atom "P" none) none)
  cases ht
  obtain ⟨-, hcolumn⟩ := hall 0 [.truth true, .null]
  obtain ⟨-, hgraded⟩ := hcolumn 0 _ rfl rfl
  obtain ⟨r, hr, -, hset⟩ := hgraded rfl
  obtain ⟨-, hguess⟩ := hset 0 _ rfl
  obtain ⟨r', hr', -, hright⟩ := hguess (.int 0)
  refine ⟨_, r, r', rfl, hr, hr', hright ⟨rfl, false, rfl, ?_⟩ ?_⟩
  · rw [← Datum.agrees_eq_same]
    rfl
  · cases hr
    decide

end Table

end TruthTables
