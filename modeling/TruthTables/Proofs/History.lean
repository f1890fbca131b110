import TruthTables.Proofs.Progress

/-!
# History — the reports that a run returns

    A run is remembered by the reports that its checks return.  All that a
    single move adds to the history is said once, in `report?_cases`: either
    no complete report, and then no column is closed; or one on the active
    column, and then exactly this column is closed.  As long as an exercise
    is unfinished its correct columns are those left of the active one
    (`Orderly.status_eq`), so their number is the next column to be reported.

    By induction on the run the complete reports are on the columns in order,
    none skipped and none repeated (`Orderly.columns_of_reports`).  And a
    correct column is never touched again (`Step.frozen`).
-/

namespace TruthTables.Exercise

/-- The report that a move returns, if it is a check that returns one. -/
def report? (e : Exercise) : Move → Option Report
  | .check =>
      match e.check with
      | .ok (r, _) => r
      | .error _ => none
  | .set _ _ _ | .toggle _ _ => none

/-- The reports that the checks among the moves return, in order. -/
def reports (e : Exercise) : List Move → List Report
  | [] => []
  | m :: ms => (e.report? m).toList ++ (e.after m).reports ms

/-- The number of columns completed so far. -/
def completed (e : Exercise) : Nat := e.status.count .correct

-- ── What one move adds ────────────────────────────────────────────────────

theorem column_of_grade {t : Table} {c : Nat} {guesses : List Datum} {r : Report}
    (h : t.grade c guesses = .ok r) : r.column = c := by
  obtain ⟨-, -, rfl⟩ := Table.grade_eq_ok_iff.mp h
  rfl

/-- There is nothing to check in a finished exercise. -/
theorem check_of_isFinished {e : Exercise} (h : e.isFinished = true) :
    e.check = .ok (none, e) := by
  rw [check, if_pos h]

/-- A check returns a report unless the exercise is finished, and closes the
    column if the report is complete. -/
theorem check_eq_ok_iff {e e' : Exercise} {r : Report} :
    e.check = .ok (some r, e') ↔ e.isFinished = false ∧
      e.table.grade e.active e.activeGuesses = .ok r ∧
        e' = if r.isComplete then e.advance else e := by
  rw [check]
  cases hfin : e.isFinished with
  | true =>
      rw [if_pos rfl]
      constructor
      · intro h
        cases h
      · rintro ⟨h, -⟩
        cases h
  | false =>
      rw [if_neg Bool.false_ne_true]
      cases hr : e.table.grade e.active e.activeGuesses with
      | error err =>
          constructor
          · intro h
            cases h
          · rintro ⟨-, h, -⟩
            cases h
      | ok r' =>
          constructor
          · intro h
            cases h
            exact ⟨rfl, rfl, rfl⟩
          · rintro ⟨-, h, rfl⟩
            cases h
            rfl

/-- A move that is no check returns no report and closes nothing. -/
theorem quiet_of_ne_check {e : Exercise} {m : Move} (h : m ≠ .check) :
    e.report? m = none ∧ (e.after m).status = e.status ∧ (e.after m).active = e.active := by
  cases m with
  | set column row guess =>
      refine ⟨rfl, ?_⟩
      simp only [after, setGuess]
      by_cases hedit : e.canEdit column
      · rw [if_pos hedit]
        cases replaceAt e.activeGuesses row guess with
        | error err => exact ⟨rfl, rfl⟩
        | ok cells => exact ⟨rfl, rfl⟩
      · rw [if_neg hedit]
        exact ⟨rfl, rfl⟩
  | toggle column row =>
      refine ⟨rfl, ?_⟩
      simp only [after, toggleGuess]
      by_cases hedit : e.canEdit column
      · rw [if_pos hedit]
        cases itemAt e.activeGuesses row with
        | error err => exact ⟨rfl, rfl⟩
        | ok guess =>
            simp only [bind, Except.bind]
            cases replaceAt e.activeGuesses row guess.cycle with
            | error err => exact ⟨rfl, rfl⟩
            | ok cells => exact ⟨rfl, rfl⟩
      · rw [if_neg hedit]
        exact ⟨rfl, rfl⟩
  | check => exact absurd rfl h

/-- A move returns no complete report and closes nothing, or it is a check that
    returns one on the active column and closes that column. -/
theorem report?_cases (e : Exercise) (m : Move) :
    ((∀ r, e.report? m = some r → r.isComplete = false) ∧
        (e.after m).status = e.status ∧ (e.after m).active = e.active) ∨
      ∃ r, m = .check ∧ e.check = .ok (some r, e.after m) ∧ e.after m = e.advance ∧
        r.isComplete = true ∧ r.column = e.active ∧ e.isFinished = false := by
  by_cases hm : m = .check
  · subst hm
    cases hfin : e.isFinished with
    | true =>
        have hcheck := check_of_isFinished hfin
        refine .inl ⟨?_, ?_⟩
        · intro r hr
          simp only [report?, hcheck] at hr
          cases hr
        · simp only [after, hcheck, and_self]
    | false =>
        cases hgrade : e.table.grade e.active e.activeGuesses with
        | error err =>
            have hcheck : e.check = .error err := by
              rw [check, if_neg (by rw [hfin]; exact Bool.false_ne_true), hgrade]
              rfl
            refine .inl ⟨?_, ?_⟩
            · intro r hr
              simp only [report?, hcheck] at hr
              cases hr
            · simp only [after, hcheck, and_self]
        | ok r =>
            have hcheck := check_eq_ok_iff.mpr ⟨hfin, hgrade, rfl⟩
            have hafter : e.after .check = if r.isComplete then e.advance else e := by
              simp only [after, hcheck]
            cases hcomplete : r.isComplete with
            | true =>
                rw [hcomplete, if_pos rfl] at hafter
                rw [hcomplete, if_pos rfl, ← hafter] at hcheck
                exact .inr ⟨r, rfl, hcheck, hafter, hcomplete, column_of_grade hgrade, rfl⟩
            | false =>
                rw [hcomplete, if_neg Bool.false_ne_true] at hafter
                refine .inl ⟨?_, ?_⟩
                · intro r' hr'
                  simp only [report?, hcheck] at hr'
                  cases hr'
                  exact hcomplete
                · rw [hafter]
                  exact ⟨rfl, rfl⟩
  · obtain ⟨hreport, hsame⟩ := quiet_of_ne_check hm
    refine .inl ⟨?_, hsame⟩
    intro r hr
    rw [hreport] at hr
    cases hr

-- ── How many columns are completed ────────────────────────────────────────

/-- The active column of an unfinished exercise is a column, and pending. -/
theorem Orderly.pending_of_unfinished {e : Exercise} (h : e.Orderly)
    (hfin : e.isFinished = false) :
    e.active < e.table.columns.length ∧ e.status[e.active]? = some .pending := by
  have hzero : e.table.columns.length ≠ 0 := by
    intro hzero
    rw [h.isFinished_iff.mpr (.inl hzero)] at hfin
    cases hfin
  have hle := h.active_le
  have hlt : e.active < e.status.length := by
    rw [h.status_length]
    omega
  refine ⟨by omega, ?_⟩
  cases hs : e.status[e.active] with
  | pending => rw [List.getElem?_eq_getElem hlt, hs]
  | correct =>
      have hs' : e.status[e.active]? = some .correct := by
        rw [List.getElem?_eq_getElem hlt, hs]
      -- a correct active column is the last one, and then all is finished
      have hlast := h.last hs'
      have hall : e.isFinished = true := by
        refine h.isFinished_iff.mpr (.inr ?_)
        rw [← hlast, Nat.add_sub_cancel]
        exact hs'
      rw [hfin] at hall
      cases hall

/-- In an unfinished exercise the correct columns are those left of the active
    one. -/
theorem Orderly.status_eq {e : Exercise} (h : e.Orderly) (hfin : e.isFinished = false) :
    e.status = List.replicate e.active .correct ++
      List.replicate (e.table.columns.length - e.active) .pending := by
  obtain ⟨hlt, hpending⟩ := h.pending_of_unfinished hfin
  refine List.ext_getElem? fun c => ?_
  rw [List.getElem?_append, List.length_replicate]
  by_cases hleft : c < e.active
  · rw [if_pos hleft, List.getElem?_replicate, if_pos hleft]
    exact h.left c hleft
  · rw [if_neg hleft, List.getElem?_replicate]
    by_cases hin : c < e.table.columns.length
    · rw [if_pos (by omega)]
      by_cases hc : c = e.active
      · rw [hc]
        exact hpending
      · exact (h.right c (by omega) hin).1
    · rw [if_neg (by omega)]
      exact List.getElem?_eq_none (by rw [h.status_length]; omega)

/-- So as many columns are completed as stand left of the active one. -/
theorem Orderly.completed_eq {e : Exercise} (h : e.Orderly) (hfin : e.isFinished = false) :
    e.completed = e.active := by
  rw [completed, h.status_eq hfin, List.count_append, List.count_replicate_self,
    List.count_replicate]
  rfl

/-- Closing the active column completes one more. -/
theorem Orderly.completed_advance {e : Exercise} (h : e.Orderly) (hfin : e.isFinished = false) :
    e.advance.completed = e.active + 1 := by
  obtain ⟨hlt, hpending⟩ := h.pending_of_unfinished hfin
  have hlts : e.active < e.status.length := by
    rw [h.status_length]
    exact hlt
  have hget : e.status[e.active] = .pending := by
    rw [List.getElem?_eq_getElem hlts] at hpending
    exact Option.some.inj hpending
  show (e.status.set e.active .correct).count .correct = _
  have hcount : e.status.count .correct = e.active := h.completed_eq hfin
  rw [List.count_set hlts, hcount, hget]
  rfl

/-- The complete reports of a run are on the columns in order: the first is on the
    first column not completed before, and the last on the last one completed. -/
theorem Orderly.columns_of_reports {e : Exercise} (h : e.Orderly) (moves : List Move) :
    ∃ k, (e.run moves).completed = e.completed + k ∧
      ((e.reports moves).filter Report.isComplete).map Report.column =
        (List.range' e.completed k).map Int.ofNat := by
  induction moves generalizing e with
  | nil => exact ⟨0, rfl, rfl⟩
  | cons m ms ih =>
      obtain ⟨k, hrun, hcolumns⟩ := ih (h.step (step_after e m))
      have hreports : e.reports (m :: ms) = (e.report? m).toList ++ (e.after m).reports ms := rfl
      have hmoves : e.run (m :: ms) = (e.after m).run ms := rfl
      rcases report?_cases e m with ⟨hnone, hstatus, -⟩ | ⟨r, rfl, hcheck, hafter, hr, hcol, hfin⟩
      · -- nothing is closed, and nothing complete is reported
        have hsame : (e.after m).completed = e.completed := by
          rw [completed, hstatus]
          rfl
        have hquiet : (e.report? m).toList.filter Report.isComplete = [] := by
          refine List.filter_eq_nil_iff.mpr fun r hr => ?_
          rw [hnone r (Option.mem_toList.mp hr)]
          exact Bool.false_ne_true
        refine ⟨k, ?_, ?_⟩
        · rw [hmoves, hrun, hsame]
        · rw [hreports, List.filter_append, hquiet, List.nil_append, hcolumns, hsame]
      · -- the active column is closed and reported
        have hbefore := h.completed_eq hfin
        have hmore : (e.after .check).completed = e.active + 1 := by
          rw [hafter]
          exact h.completed_advance hfin
        have hreport : e.report? .check = some r := by simp only [report?, hcheck]
        have hone : ((some r).toList.filter Report.isComplete).map Report.column =
            [Int.ofNat e.active] := by
          simp [hr, hcol]
        refine ⟨k + 1, ?_, ?_⟩
        · rw [hmoves, hrun, hmore, hbefore]
          omega
        · rw [hreports, hreport, List.filter_append, List.map_append, hone, hcolumns, hmore,
            hbefore, List.range'_succ, List.map_cons]
          rfl

-- ── What never goes back ──────────────────────────────────────────────────

/-- The active column moves by one at most, never back, and only in a check that
    returns a complete report. -/
theorem active_after (e : Exercise) (m : Move) :
    e.active ≤ (e.after m).active ∧ (e.after m).active ≤ e.active + 1 ∧
      (e.active < (e.after m).active →
        m = .check ∧ ∃ r, e.check = .ok (some r, e.after m) ∧ r.isComplete = true) := by
  rcases report?_cases e m with ⟨-, -, hactive⟩ | ⟨r, rfl, hcheck, hafter, hr, -, -⟩
  · refine ⟨by omega, by omega, fun hlt => ?_⟩
    omega
  · have hadvance : e.active ≤ e.advance.active ∧ e.advance.active ≤ e.active + 1 := by
      simp only [advance]
      by_cases hnext : e.active + 1 < e.status.length
      · rw [if_pos hnext]
        omega
      · rw [if_neg hnext]
        omega
    rw [← hafter] at hadvance
    exact ⟨hadvance.1, hadvance.2, fun _ => ⟨rfl, r, hcheck, hr⟩⟩

/-- A step leaves the cells of a correct column as they are, and the column
    correct. -/
theorem Step.frozen {e e' : Exercise} (h : Step e e') {c : Nat}
    (hc : e.status[c]? = some .correct) :
    e'.status[c]? = some .correct ∧ e'.guesses[c]? = e.guesses[c]? := by
  cases h with
  | stay => exact ⟨hc, rfl⟩
  | @edit k d hp _ =>
      refine ⟨hc, ?_⟩
      -- only the active column is edited, and that one is pending
      have hne : e.active ≠ c := by
        rintro rfl
        rw [hp] at hc
        cases hc
      exact List.getElem?_set_ne hne
  | advance _ _ _ =>
      refine ⟨?_, rfl⟩
      show (e.status.set e.active .correct)[c]? = _
      have hlt : c < e.status.length := (List.getElem?_eq_some_iff.mp hc).1
      by_cases hac : e.active = c
      · rw [hac, List.getElem?_set_self hlt]
      · rw [List.getElem?_set_ne hac, hc]

theorem frozen_run {e : Exercise} {c : Nat} (hc : e.status[c]? = some .correct)
    (moves : List Move) :
    (e.run moves).status[c]? = some .correct ∧ (e.run moves).guesses[c]? = e.guesses[c]? := by
  induction moves generalizing e with
  | nil => exact ⟨hc, rfl⟩
  | cons m ms ih =>
      obtain ⟨hc', hcells⟩ := (step_after e m).frozen hc
      obtain ⟨hrun, hsame⟩ := ih hc'
      exact ⟨hrun, hsame.trans hcells⟩

end TruthTables.Exercise
