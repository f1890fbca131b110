import TruthTables.Proofs.Classification
import TruthTables.Proofs.History

/-!
# Checks — a check never fails, and a second one changes nothing

    A check grades the active column and closes it if the report is complete.
    In a state that is in order the active column has a guess for each row, so
    the grading cannot fail (`Orderly.exists_report`).  Once the exercise is
    finished every move leaves it as it is (`run_of_isFinished`).

    When a check closes a column, the next one is active, and it is still blank
    (`Orderly.activeGuesses_advance`).  A table has at least one row, so a blank
    column is not complete (`Table.isComplete_of_blank`).  Hence two checks in a
    row close one column at most.

    **Main result** (`check_settles`): what a check answers and what it leaves
    behind, in every state that an exercise can be in.
-/

namespace TruthTables

-- ── Blank columns ─────────────────────────────────────────────────────────

/-- A table has at least one row. -/
theorem Table.exists_first_row (root : Formula) : ∃ a, (filled root).rows[0]? = some a := by
  obtain ⟨a, ha, -⟩ := Assignment.exists_mem_rows (fun _ => true) root.atoms
  exact ⟨_, List.getElem?_eq_getElem (List.length_pos_of_mem ha)⟩

/-- A column in which nothing was entered is not complete. -/
theorem Table.isComplete_of_blank {root : Formula} {c : Nat} {r : Report}
    (h : (filled root).grade c (List.replicate (filled root).rows.length .null) = .ok r) :
    r.isComplete = false := by
  obtain ⟨hlt, -, -⟩ := grade_eq_ok_iff.mp h
  obtain ⟨a, ha⟩ := exists_first_row root
  have hpos : 0 < (filled root).rows.length := (List.getElem?_eq_some_iff.mp ha).1
  cases hcomplete : r.isComplete with
  | false => rfl
  | true =>
      -- the cell in the first row would be right, but it is blank
      have hcell : (List.replicate (filled root).rows.length Datum.null)[0]? = some .null := by
        rw [List.getElem?_replicate, if_pos hpos]
      have hright := isValueOf_of_isComplete h hcomplete (List.getElem?_eq_getElem hlt) ha hcell
      cases hright.1

namespace Exercise

variable {e e' : Exercise}

-- ── Finished exercises ────────────────────────────────────────────────────

theorem status_of_isFinished (h : e.isFinished = true) {c : Nat} {s : Status}
    (hs : e.status[c]? = some s) : s = .correct := by
  simp only [isFinished, List.all_eq_true, decide_eq_true_eq] at h
  exact h s (List.mem_of_getElem? hs)

/-- A step from a finished exercise leads nowhere. -/
theorem Step.eq_of_isFinished (hstep : Step e e') (h : e.isFinished = true) : e' = e := by
  cases hstep with
  | stay => rfl
  | edit d hpending _ => cases status_of_isFinished h hpending
  | advance hfin _ _ =>
      rw [h] at hfin
      cases hfin

/-- Nothing changes a finished exercise. -/
theorem run_of_isFinished (h : e.isFinished = true) (moves : List Move) : e.run moves = e := by
  induction moves with
  | nil => rfl
  | cons m ms ih =>
      show (e.after m).run ms = e
      rw [(step_after e m).eq_of_isFinished h]
      exact ih

-- ── What a check leaves behind ────────────────────────────────────────────

theorem after_check {r : Option Report} (h : e.check = .ok (r, e')) :
    e.after .check = e' := by
  simp only [after, h]

/-- Nothing keeps a check of an unfinished exercise from returning a report. -/
theorem Orderly.exists_report (h : e.Orderly) (hfin : e.isFinished = false) :
    ∃ r, e.check = .ok (some r, e.after .check) := by
  obtain ⟨hlt, hpending⟩ := h.pending_of_unfinished hfin
  obtain ⟨-, hcells⟩ := h.active_of_pending hpending
  have hlength : e.activeGuesses.length = e.table.rows.length :=
    h.cells_length _ (List.mem_of_getElem? hcells)
  have hcheck := check_eq_ok_iff.mpr ⟨hfin, Table.grade_of_length_eq hlt hlength, rfl⟩
  exact ⟨_, (after_check hcheck).symm ▸ hcheck⟩

theorem Orderly.table_eq (h : e.Orderly) : e.table = Table.filled e.loaded.root :=
  Except.ok.inj (h.table.symm.trans (Table.ofFormula_eq_filled _))

/-- The table is that of the formula, so no run changes it. -/
theorem Orderly.table_run (h : e.Orderly) (moves : List Move) :
    (e.run moves).table = e.table := by
  rw [(h.run moves).table_eq, loaded_run, ← h.table_eq]

/-- The column that is opened when another one is closed is blank. -/
theorem Orderly.activeGuesses_advance {r : Report} (h : e.Orderly) (hfin : e.isFinished = false)
    (hr : e.table.grade e.active e.activeGuesses = .ok r) (hcomplete : r.isComplete = true)
    (hnext : e.advance.isFinished = false) :
    e.advance.activeGuesses = List.replicate e.table.rows.length .null := by
  obtain ⟨hlt, hpending⟩ := (h.advance hfin hr hcomplete).pending_of_unfinished hnext
  have hactive : e.advance.active = e.active + 1 := by
    by_cases hmore : e.active + 1 < e.status.length
    · exact if_pos hmore
    · -- the column just closed would be the pending one
      have hsame : e.advance.active = e.active := if_neg hmore
      have hlts : e.active < e.status.length := by
        rw [h.status_length]
        exact (h.pending_of_unfinished hfin).1
      have hclosed : e.advance.status[e.active]? = some .correct := List.getElem?_set_self hlts
      rw [hsame, hclosed] at hpending
      cases hpending
  rw [hactive] at hlt
  show e.guesses[e.advance.active]?.getD [] = _
  rw [hactive, (h.right (e.active + 1) (Nat.lt_succ_self _) hlt).2]
  rfl

/-- A check right after another one changes nothing. -/
theorem Orderly.check_check (h : e.Orderly) :
    ∃ r, (e.after .check).check = .ok (r, e.after .check) := by
  cases hfin : e.isFinished with
  | true =>
      rw [(step_after e .check).eq_of_isFinished hfin]
      exact ⟨none, check_of_isFinished hfin⟩
  | false =>
      obtain ⟨r, hcheck⟩ := h.exists_report hfin
      obtain ⟨-, hgrade, hafter⟩ := check_eq_ok_iff.mp hcheck
      rw [hafter]
      cases hcomplete : r.isComplete with
      | false =>
          rw [if_neg Bool.false_ne_true]
          refine ⟨some r, check_eq_ok_iff.mpr ⟨hfin, hgrade, ?_⟩⟩
          rw [hcomplete, if_neg Bool.false_ne_true]
      | true =>
          rw [if_pos rfl]
          cases hnext : e.advance.isFinished with
          | true => exact ⟨none, check_of_isFinished hnext⟩
          | false =>
              have hadvance := h.advance hfin hgrade hcomplete
              obtain ⟨r', hcheck'⟩ := hadvance.exists_report hnext
              obtain ⟨-, hgrade', -⟩ := check_eq_ok_iff.mp hcheck'
              have hblank := hgrade'
              rw [h.activeGuesses_advance hfin hgrade hcomplete hnext] at hblank
              have htable : e.advance.table = Table.filled e.loaded.root := h.table_eq
              rw [htable, h.table_eq] at hblank
              have hincomplete := Table.isComplete_of_blank hblank
              refine ⟨some r', check_eq_ok_iff.mpr ⟨hnext, hgrade', ?_⟩⟩
              rw [hincomplete, if_neg Bool.false_ne_true]

/-- **A check never fails, and a second one changes nothing.**  Take an exercise
    about any formula, after any moves.  A check returns, leaves every guess as it
    was, and leaves the whole state as it was unless its report is complete.  It
    returns no report exactly when the exercise is finished, and then no moves at
    all change the state.  Another check right after it returns too, and leaves
    the state exactly as the first one left it. -/
theorem check_settles (loaded : Loaded) :
    ∃ e₀, start loaded = .ok e₀ ∧ ∀ moves : List Move,
      let e := e₀.run moves
      ∃ r e', e.check = .ok (r, e') ∧ e'.guesses = e.guesses ∧
        (e' = e ∨ ∃ report, r = some report ∧ report.isComplete = true) ∧
        (r = none ↔ e.isFinished = true) ∧
        (e.isFinished = true → ∀ later, e.run later = e) ∧
        ∃ r', e'.check = .ok (r', e') := by
  obtain ⟨e₀, hstart, -, horderly⟩ := orderly_start loaded
  refine ⟨e₀, hstart, fun moves => ?_⟩
  have h := horderly.run moves
  have hsecond := h.check_check
  cases hfin : (e₀.run moves).isFinished with
  | true =>
      rw [(step_after _ .check).eq_of_isFinished hfin] at hsecond
      exact ⟨none, _, check_of_isFinished hfin, rfl, .inl rfl, iff_of_true rfl hfin,
        fun _ => run_of_isFinished hfin, hsecond⟩
  | false =>
      have hopen : ¬ (e₀.run moves).isFinished = true := by
        rw [hfin]
        exact Bool.false_ne_true
      obtain ⟨r, hcheck⟩ := h.exists_report hfin
      obtain ⟨-, -, hafter⟩ := check_eq_ok_iff.mp hcheck
      refine ⟨some r, _, hcheck, ?_, ?_, iff_of_false nofun hopen, fun hdone => ?_, hsecond⟩
      · rw [hafter]
        cases r.isComplete <;> rfl
      · rw [hafter]
        cases hcomplete : r.isComplete with
        | false => exact .inl rfl
        | true => exact .inr ⟨r, rfl, hcomplete⟩
      · exact absurd hdone hopen

end Exercise

end TruthTables
