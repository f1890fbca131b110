import TruthTables.Exercise
import TruthTables.Proofs.Grading
import TruthTables.Proofs.Lookup

/-!
# Progress — what holds in every state of an exercise

    A learner makes moves: sets a cell, toggles one, or asks for a check.  A
    move that is refused or fails leaves everything as it was.  `Step` says
    all that a move can do: nothing, one cell of the pending active column,
    or closing that column after a complete report.

    `Orderly` is the invariant.  Columns left of the active one are correct,
    columns right of it are pending and blank, and a correct column holds
    the truth values of its formula.  It holds of a new exercise
    (`orderly_start`) and is kept by every step (`Orderly.step`), hence by
    every run (`Orderly.run`).
-/

namespace TruthTables

/-- What a learner can do; rows and columns are any integers. -/
inductive Move where
  | set (column row : Int) (guess : Datum)
  | toggle (column row : Int)
  | check

namespace Exercise

/-- The state after a move.  A move that fails changes nothing. -/
def after (e : Exercise) : Move → Exercise
  | .set column row guess =>
      match e.setGuess column row guess with
      | .ok (_, e') => e'
      | .error _ => e
  | .toggle column row =>
      match e.toggleGuess column row with
      | .ok (_, e') => e'
      | .error _ => e
  | .check =>
      match e.check with
      | .ok (_, e') => e'
      | .error _ => e

/-- The state after several moves. -/
def run (e : Exercise) (moves : List Move) : Exercise := moves.foldl after e

-- ── One move ──────────────────────────────────────────────────────────────

/-- All that a move can do. -/
inductive Step (e : Exercise) : Exercise → Prop where
  | stay : Step e e
  | edit {k : Nat} (d : Datum) : e.status[e.active]? = some .pending →
      k < e.activeGuesses.length → Step e (e.withActiveGuesses (e.activeGuesses.set k d))
  | advance {r : Report} : e.isFinished = false →
      e.table.grade e.active e.activeGuesses = .ok r → r.isComplete = true → Step e e.advance

theorem status_of_canEdit {e : Exercise} {column : Int} (h : e.canEdit column = true) :
    e.status[e.active]? = some .pending := by
  simp only [canEdit, Bool.and_eq_true, decide_eq_true_eq] at h
  exact h.2

theorem step_set (e : Exercise) (column row : Int) (guess : Datum) :
    Step e (e.after (.set column row guess)) := by
  simp only [after, setGuess]
  by_cases hedit : e.canEdit column
  · rw [if_pos hedit]
    cases hr : replaceAt e.activeGuesses row guess with
    | error err => exact .stay
    | ok cells =>
        obtain ⟨k, hk, rfl⟩ := replaceAt_eq_ok hr
        exact .edit guess (status_of_canEdit hedit) hk
  · rw [if_neg hedit]
    exact .stay

theorem step_toggle (e : Exercise) (column row : Int) :
    Step e (e.after (.toggle column row)) := by
  simp only [after, toggleGuess]
  by_cases hedit : e.canEdit column
  · rw [if_pos hedit]
    cases hi : itemAt e.activeGuesses row with
    | error err => exact .stay
    | ok guess =>
        cases hr : replaceAt e.activeGuesses row guess.cycle with
        | error err =>
            simp only [bind, Except.bind, hr]
            exact .stay
        | ok cells =>
            obtain ⟨k, hk, rfl⟩ := replaceAt_eq_ok hr
            simp only [bind, Except.bind, hr]
            exact .edit guess.cycle (status_of_canEdit hedit) hk
  · rw [if_neg hedit]
    exact .stay

theorem step_check (e : Exercise) : Step e (e.after .check) := by
  simp only [after, check]
  by_cases hfin : e.isFinished
  · rw [if_pos hfin]
    exact .stay
  · rw [if_neg hfin]
    cases hr : e.table.grade e.active e.activeGuesses with
    | error err => exact .stay
    | ok r =>
        simp only [bind, Except.bind, pure, Except.pure]
        by_cases hcomplete : r.isComplete
        · rw [if_pos hcomplete]
          exact .advance (by simpa using hfin) hr hcomplete
        · rw [if_neg hcomplete]
          exact .stay

/-- Every move is such a step. -/
theorem step_after (e : Exercise) (m : Move) : Step e (e.after m) := by
  cases m with
  | set column row guess => exact step_set e column row guess
  | toggle column row => exact step_toggle e column row
  | check => exact step_check e

-- ── The invariant ─────────────────────────────────────────────────────────

/-- The state of an exercise is in order. -/
structure Orderly (e : Exercise) : Prop where
  /-- The table is that of the formula. -/
  table : Table.ofFormula e.loaded.root = .ok e.table
  /-- There is a list of guesses for each column, with one for each row. -/
  guesses_length : e.guesses.length = e.table.columns.length
  cells_length : ∀ cells ∈ e.guesses, cells.length = e.table.rows.length
  status_length : e.status.length = e.table.columns.length
  /-- The active column is a column, or the first one if there are none. -/
  active_le : e.active ≤ e.table.columns.length - 1
  /-- What is left of it is correct. -/
  left : ∀ c, c < e.active → e.status[c]? = some .correct
  /-- What is right of it is pending and blank. -/
  right : ∀ c, e.active < c → c < e.table.columns.length →
    e.status[c]? = some .pending ∧
      e.guesses[c]? = some (List.replicate e.table.rows.length .null)
  /-- It is correct only if it is the last one. -/
  last : e.status[e.active]? = some .correct → e.active + 1 = e.table.columns.length
  /-- A correct column holds the truth values of its formula. -/
  values : ∀ (c r : Nat) (cells : List Datum) (col : Formula) (row : Assignment) (d : Datum),
    e.status[c]? = some .correct → e.table.columns[c]? = some col →
      e.table.rows[r]? = some row → e.guesses[c]? = some cells → cells[r]? = some d →
      d.IsValueOf col row

/-- An exercise is finished when there is no column or the last one is
    correct. -/
theorem Orderly.isFinished_iff {e : Exercise} (h : e.Orderly) :
    e.isFinished = true ↔ e.table.columns.length = 0 ∨
      e.status[e.table.columns.length - 1]? = some .correct := by
  simp only [isFinished, List.all_eq_true, decide_eq_true_eq]
  constructor
  · intro hall
    by_cases hzero : e.table.columns.length = 0
    · exact .inl hzero
    · have hlt : e.table.columns.length - 1 < e.status.length := by
        rw [h.status_length]
        omega
      refine .inr ?_
      rw [List.getElem?_eq_getElem hlt, hall _ (List.getElem_mem hlt)]
  · rintro (hzero | hlast) s hs
    · have hnil : e.status = [] := List.eq_nil_of_length_eq_zero (h.status_length.trans hzero)
      rw [hnil] at hs
      cases hs
    · obtain ⟨c, hc⟩ := List.getElem?_of_mem hs
      have hlt : c < e.status.length := (List.getElem?_eq_some_iff.mp hc).1
      rw [h.status_length] at hlt
      -- the last column is correct, so it is the active one
      have hactive : e.active = e.table.columns.length - 1 := by
        have hle := h.active_le
        by_cases hlt' : e.active < e.table.columns.length - 1
        · have hpending := (h.right _ hlt' (by omega)).1
          rw [hlast] at hpending
          cases hpending
        · omega
      by_cases hca : c < e.active
      · rw [h.left c hca] at hc
        exact (Option.some.inj hc).symm
      · obtain rfl : c = e.table.columns.length - 1 := by omega
        rw [hlast] at hc
        exact (Option.some.inj hc).symm

/-- A pending active column is a column, with a guess for each row. -/
theorem Orderly.active_of_pending {e : Exercise} (h : e.Orderly)
    (hp : e.status[e.active]? = some .pending) :
    e.active < e.table.columns.length ∧ e.guesses[e.active]? = some e.activeGuesses := by
  have hlt : e.active < e.table.columns.length := by
    rw [← h.status_length]
    exact (List.getElem?_eq_some_iff.mp hp).1
  have hget : e.active < e.guesses.length := by
    rw [h.guesses_length]
    exact hlt
  refine ⟨hlt, ?_⟩
  rw [activeGuesses, List.getElem?_eq_getElem hget]
  rfl

/-- An edit of the active column keeps the order. -/
theorem Orderly.edit {e : Exercise} (h : e.Orderly) {k : Nat} (d : Datum)
    (hp : e.status[e.active]? = some .pending) :
    (e.withActiveGuesses (e.activeGuesses.set k d)).Orderly := by
  obtain ⟨hlt, hactive⟩ := h.active_of_pending hp
  refine { h with guesses_length := ?_, cells_length := ?_, right := ?_, values := ?_ }
  · rw [withActiveGuesses, List.length_set]
    exact h.guesses_length
  · intro cells hcells
    rcases List.mem_or_eq_of_mem_set hcells with hmem | rfl
    · exact h.cells_length cells hmem
    · rw [List.length_set]
      exact h.cells_length _ (List.mem_of_getElem? hactive)
  · intro c hc hcn
    refine ⟨(h.right c hc hcn).1, ?_⟩
    have hne : e.active ≠ c := Nat.ne_of_lt hc
    rw [withActiveGuesses, List.getElem?_set_ne hne]
    exact (h.right c hc hcn).2
  · intro c r cells col row d' hs hcol hrow hcells hd'
    -- the edited column is pending, so it is not the correct one looked at
    have hne : e.active ≠ c := by
      rintro rfl
      have hs' : e.status[e.active]? = some .correct := hs
      rw [hp] at hs'
      cases hs'
    rw [withActiveGuesses, List.getElem?_set_ne hne] at hcells
    exact h.values c r cells col row d' hs hcol hrow hcells hd'

/-- Closing the active column after a complete report keeps the order. -/
theorem Orderly.advance {e : Exercise} (h : e.Orderly) {r : Report}
    (hfin : e.isFinished = false) (hr : e.table.grade e.active e.activeGuesses = .ok r)
    (hcomplete : r.isComplete = true) : e.advance.Orderly := by
  have hlt : e.active < e.table.columns.length := by
    have hle := h.active_le
    have hzero : e.table.columns.length ≠ 0 := by
      intro hzero
      rw [h.isFinished_iff.mpr (.inl hzero)] at hfin
      cases hfin
    omega
  have hlts : e.active < e.status.length := by
    rw [h.status_length]
    exact hlt
  -- the statuses after the step: that of the active column is set, no other
  have hself : e.advance.status[e.active]? = some .correct := by
    show (e.status.set e.active .correct)[e.active]? = _
    rw [List.getElem?_set_self hlts]
  have hother : ∀ c, e.active ≠ c → e.advance.status[c]? = e.status[c]? := by
    intro c hc
    exact List.getElem?_set_ne hc
  have hactive : e.advance.active = e.active ∧ e.active + 1 = e.table.columns.length ∨
      e.advance.active = e.active + 1 ∧ e.active + 1 < e.table.columns.length := by
    simp only [Exercise.advance, h.status_length]
    by_cases hnext : e.active + 1 < e.table.columns.length
    · rw [if_pos hnext]
      exact .inr ⟨rfl, hnext⟩
    · rw [if_neg hnext]
      exact .inl ⟨rfl, by omega⟩
  refine { h with status_length := ?_, active_le := ?_, left := ?_, right := ?_, last := ?_,
                  values := ?_ }
  · show (e.status.set e.active .correct).length = _
    rw [List.length_set]
    exact h.status_length
  · show e.advance.active ≤ e.table.columns.length - 1
    omega
  · intro c hc
    by_cases hca : e.active = c
    · rw [← hca]
      exact hself
    · rw [hother c hca]
      exact h.left c (by omega)
  · intro c hc hcn
    have hca : e.active < c := by omega
    rw [hother c (Nat.ne_of_lt hca)]
    exact h.right c hca hcn
  · intro hs
    rcases hactive with ⟨hact, hend⟩ | ⟨hact, hnext⟩
    · rw [hact]
      exact hend
    · rw [hact, hother _ (by omega), (h.right _ (Nat.lt_succ_self _) hnext).1] at hs
      cases hs
  · intro c k cells col row d hs hcol hrow hcells hd
    by_cases hca : e.active = c
    · -- the column just closed: its report was complete
      obtain rfl := hca
      have hguesses : e.activeGuesses = cells := by
        have hcells' : e.guesses[e.active]? = some cells := hcells
        rw [activeGuesses, hcells']
        rfl
      have htable : Table.filled e.loaded.root = e.table :=
        Except.ok.inj ((Table.ofFormula_eq_filled _).symm.trans h.table)
      have hcol' : e.table.columns[e.active]? = some col := hcol
      have hrow' : e.table.rows[k]? = some row := hrow
      rw [← htable] at hr hcol' hrow'
      rw [hguesses] at hr
      exact Table.isValueOf_of_isComplete hr hcomplete hcol' hrow' hd
    · rw [hother c hca] at hs
      exact h.values c k cells col row d hs hcol hrow hcells hd

/-- Every step keeps the order. -/
theorem Orderly.step {e e' : Exercise} (h : e.Orderly) (hstep : Step e e') : e'.Orderly := by
  cases hstep with
  | stay => exact h
  | edit d hp _ => exact h.edit d hp
  | advance hfin hr hcomplete => exact h.advance hfin hr hcomplete

/-- Every run keeps the order. -/
theorem Orderly.run {e : Exercise} (h : e.Orderly) (moves : List Move) :
    (e.run moves).Orderly := by
  induction moves generalizing e with
  | nil => exact h
  | cons m moves ih => exact ih (h.step (step_after e m))

/-- No step changes the formula that the exercise is about. -/
theorem loaded_of_step {e e' : Exercise} (hstep : Step e e') : e'.loaded = e.loaded := by
  cases hstep with
  | stay => rfl
  | edit _ _ _ => rfl
  | advance _ _ _ => rfl

theorem loaded_run (e : Exercise) (moves : List Move) : (e.run moves).loaded = e.loaded := by
  induction moves generalizing e with
  | nil => rfl
  | cons m moves ih => exact (ih (e.after m)).trans (loaded_of_step (step_after e m))

/-- A new exercise is in order. -/
theorem orderly_start (loaded : Loaded) :
    ∃ e, start loaded = .ok e ∧ e.loaded = loaded ∧ e.Orderly := by
  have hstart : start loaded = .ok
      { loaded, table := Table.filled loaded.root
        guesses := List.replicate (Table.filled loaded.root).columns.length
          (List.replicate (Table.filled loaded.root).rows.length .null)
        status := List.replicate (Table.filled loaded.root).columns.length .pending
        active := 0 } := by
    rw [start, Table.ofFormula_eq_filled]
    rfl
  refine ⟨_, hstart, rfl, ?_⟩
  -- no column of a new exercise is correct
  have hpending : ∀ {n c : Nat}, (List.replicate n Status.pending)[c]? ≠ some .correct := by
    intro n c h
    cases List.eq_of_mem_replicate (List.mem_of_getElem? h)
  exact {
    table := Table.ofFormula_eq_filled loaded.root
    guesses_length := List.length_replicate
    cells_length := by
      intro cells hcells
      rw [List.eq_of_mem_replicate hcells, List.length_replicate]
    status_length := List.length_replicate
    active_le := Nat.zero_le _
    left := fun c hc => absurd hc (Nat.not_lt_zero c)
    right := fun c _ hc =>
      ⟨by rw [List.getElem?_replicate, if_pos hc], by rw [List.getElem?_replicate, if_pos hc]⟩
    last := fun h => absurd h hpending
    values := fun c r cells col row d h => absurd h hpending }

/-- **Every exercise stays in order.**  A new exercise about any formula can be
    started, and after any moves at all, also refused and failing ones, it is
    about the same formula and in order.  So it is finished exactly when there
    is no column to fill or the last one is correct. -/
theorem run_orderly_from_start (loaded : Loaded) :
    ∃ e₀, start loaded = .ok e₀ ∧ ∀ moves : List Move,
      let e := e₀.run moves
      e.loaded = loaded ∧ e.Orderly ∧
        (e.isFinished = true ↔ e.table.columns.length = 0 ∨
          e.status[e.table.columns.length - 1]? = some .correct) := by
  obtain ⟨e₀, hstart, hloaded, horderly⟩ := orderly_start loaded
  refine ⟨e₀, hstart, fun moves => ⟨?_, horderly.run moves, (horderly.run moves).isFinished_iff⟩⟩
  exact (loaded_run e₀ moves).trans hloaded

end Exercise

end TruthTables
