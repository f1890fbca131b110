import TruthTables.Proofs.Checks
import TruthTables.Proofs.Edits

/-!
# Completion — an exercise can be finished from wherever it stands

    Edits solve the active column when they stay inside it and bring each of
    its cells to the true value (`Solves`).  Whatever was entered before, such
    edits are accepted and the next check closes the column
    (`Orderly.closes_of_solves`).  There are such edits in every unfinished
    state: each cell can be overwritten (`Orderly.exists_overwrites`), and each
    can be turned until it is right (`Orderly.exists_turns`).

    A round is some edits and a check.  A round that solves the column completes
    one column more (`Orderly.completed_round`), and an exercise is finished when
    all its columns are completed (`Orderly.isFinished_iff_completed`).  So as
    many rounds are needed as there are columns left, and as many are enough.

    **Main result** (`completable_from_anywhere`): this, from every unfinished
    state that an exercise can be in.
-/

namespace TruthTables

-- ── Plans ─────────────────────────────────────────────────────────────────

namespace Edit

variable {active n k : Nat}

/-- Touches planned for the rows of a column, as edits from the first of `m` rows downward. -/
def plan (active : Nat) (touches : Nat → List Touch) (m : Nat) : List Edit :=
  (List.range m).flatMap fun k => (touches k).map fun t => ⟨active, k, t⟩

theorem mem_plan {touches : Nat → List Touch} {m : Nat} {ed : Edit}
    (h : ed ∈ plan active touches m) :
    ∃ j < m, ed.column = active ∧ ed.row = (j : Int) ∧ ed.touch ∈ touches j := by
  obtain ⟨j, hj, hed⟩ := List.mem_flatMap.mp h
  obtain ⟨t, ht, rfl⟩ := List.mem_map.mp hed
  exact ⟨j, List.mem_range.mp hj, rfl, rfl, ht⟩

/-- The touches of one row address no other. -/
theorem touchesOn_row (hk : k < n) (j : Nat) (ts : List Touch) :
    touchesOn active n k (ts.map fun t => ⟨active, j, t⟩) = if k = j then ts else [] := by
  rw [touchesOn, List.filter_map, List.map_map]
  by_cases hkj : k = j
  · subst hkj
    rw [if_pos rfl, List.filter_eq_self.mpr]
    · exact List.map_id ts
    · intro t _
      exact addresses_iff.mpr ⟨rfl, .inl rfl⟩
  · rw [if_neg hkj, List.filter_eq_nil_iff.mpr]
    · rfl
    · intro t _ ht
      have hrow := (addresses_iff.mp ht).2
      dsimp only at hrow
      omega

/-- Each row has the touches that were planned for it. -/
theorem touchesOn_plan (hk : k < n) (touches : Nat → List Touch) (m : Nat) :
    touchesOn active n k (plan active touches m) = if k < m then touches k else [] := by
  induction m with
  | zero => rfl
  | succ m ih =>
      have hplan : plan active touches (m + 1) =
          plan active touches m ++ (touches m).map fun t => ⟨active, m, t⟩ := by
        rw [plan, List.range_succ, List.flatMap_append, List.flatMap_singleton]
        rfl
      rw [hplan, touchesOn_append, ih, touchesOn_row hk]
      by_cases hkm : k = m
      · subst hkm
        rw [if_neg (Nat.lt_irrefl k), if_pos rfl, if_pos (Nat.lt_succ_self k)]
        rfl
      · rw [if_neg hkm, List.append_nil]
        by_cases hlt : k < m
        · rw [if_pos hlt, if_pos (Nat.lt_succ_of_lt hlt)]
        · rw [if_neg hlt, if_neg (by omega)]

end Edit

/-- Turned often enough, a cell holds any truth value that one wants. -/
theorem Touch.exists_turns (d : Datum) (b : Bool) :
    ∃ m, (List.replicate m Touch.turn).foldl Touch.apply d = .truth b := by
  -- one turn leads into the rotation, whatever the cell held
  have hrotation : ∃ m, (List.replicate m Touch.turn).foldl Touch.apply d.cycle = .truth b := by
    rw [Datum.cycle]
    cases d.isNull with
    | true => cases b with
        | true => exact ⟨0, rfl⟩
        | false => exact ⟨1, rfl⟩
    | false => cases d.truthy with
        | true => cases b with
            | true => exact ⟨2, rfl⟩
            | false => exact ⟨0, rfl⟩
        | false => cases b with
            | true => exact ⟨1, rfl⟩
            | false => exact ⟨2, rfl⟩
  obtain ⟨m, hm⟩ := hrotation
  exact ⟨m + 1, hm⟩

namespace Exercise

-- ── Rounds ────────────────────────────────────────────────────────────────

/-- The edits are of rows of the active column, counted from either end. -/
def StaysInside (e : Exercise) (es : List Edit) : Prop :=
  ∀ ed ∈ es, ed.column = e.active ∧ -(e.table.rows.length : Int) ≤ ed.row ∧
    ed.row < e.table.rows.length

/-- The edits bring every cell of the active column to the value that the table has there. -/
structure Solves (e : Exercise) (es : List Edit) : Prop where
  inside : e.StaysInside es
  solved : ∀ (k : Nat) (d : Datum) (b : Bool), e.cell? e.active k = some d →
    (e.table.columnValues e.active)[k]? = some b →
      (Edit.touchesOn e.active e.table.rows.length k es).foldl Touch.apply d = .truth b

/-- The edits overwrite every cell of the active column, each once, with the value that the
    table has there.  They may come in any order. -/
structure Overwrites (e : Exercise) (es : List Edit) : Prop where
  inside : e.StaysInside es
  once : ∀ (k : Nat) (b : Bool), (e.table.columnValues e.active)[k]? = some b →
    Edit.touchesOn e.active e.table.rows.length k es = [.put (.truth b)]

/-- The edits solve the active column by turning cells only. -/
structure Turns (e : Exercise) (es : List Edit) : Prop extends Solves e es where
  turn : ∀ ed ∈ es, ed.touch = .turn

/-- Every one of the edits is accepted when its turn comes. -/
def Accepts : Exercise → List Edit → Prop
  | _, [] => True
  | e, ed :: es => ed.answer e = .ok (true, e.after ed.move) ∧ (e.after ed.move).Accepts es

/-- The state after some edits and a check. -/
def round (e : Exercise) (es : List Edit) : Exercise := (e.run (es.map Edit.move)).after .check

/-- The state after several rounds. -/
def play (e : Exercise) (rounds : List (List Edit)) : Exercise := rounds.foldl round e

/-- The edits are accepted, and a check of them finds every cell of the column correct. -/
structure Closes (e : Exercise) (es : List Edit) : Prop where
  accepts : e.Accepts es
  report : ∃ r, (e.run (es.map Edit.move)).check = .ok (some r, e.round es) ∧
    r.column = e.active ∧ r.isComplete = true ∧ r.correct = e.table.rows.length

/-- In each of the rounds the edits are of the given kind for the state that the rounds
    before it have left. -/
def RoundsOf (kind : Exercise → List Edit → Prop) : Exercise → List (List Edit) → Prop
  | _, [] => True
  | e, es :: rounds => kind e es ∧ RoundsOf kind (e.round es) rounds

/-- The exercise can be finished by edits of the given kind, in as many rounds as there are
    columns from the active one on. -/
structure CompletableBy (kind : Exercise → List Edit → Prop) (e : Exercise) : Prop where
  /-- As long as fewer rounds were played there are edits for another one, and all such
      edits close their column. -/
  next : ∀ rounds, RoundsOf kind e rounds →
    rounds.length < e.table.columns.length - e.active →
      (∃ es, kind (e.play rounds) es) ∧ ∀ es, kind (e.play rounds) es → (e.play rounds).Closes es
  finishes : ∀ rounds, RoundsOf kind e rounds →
    ((e.play rounds).isFinished = true ↔ e.table.columns.length - e.active ≤ rounds.length)

variable {e : Exercise} {es : List Edit}

theorem Overwrites.solves (h : e.Overwrites es) : e.Solves es where
  inside := h.inside
  solved := by
    intro k d b _ hb
    rw [h.once k b hb]
    rfl

theorem round_eq_run (e : Exercise) (es : List Edit) :
    e.round es = e.run (es.map Edit.move ++ [.check]) := by
  rw [run, List.foldl_append]
  rfl

-- ── One round ─────────────────────────────────────────────────────────────

theorem canEdit_active (h : e.status[e.active]? = some .pending) : e.canEdit e.active = true := by
  rw [canEdit, h]
  simp

/-- Edits inside of a column that takes guesses are all accepted. -/
theorem Orderly.accepts (h : e.Orderly) (hpending : e.status[e.active]? = some .pending)
    (hes : e.StaysInside es) : e.Accepts es := by
  induction es generalizing e with
  | nil => trivial
  | cons ed es ih =>
      obtain ⟨hcolumn, hlow, hhigh⟩ := hes ed (List.mem_cons_self ..)
      have hedit : e.canEdit ed.column = true := by
        rw [hcolumn]
        exact canEdit_active hpending
      obtain ⟨k, -, -, d, -, hanswer, -, hsame⟩ := h.edit_inside hedit hlow hhigh
      refine ⟨hanswer, ih (h.step (step_after e ed.move)) ?_ ?_⟩
      · rw [hsame.status, hsame.active]
        exact hpending
      · intro ed' hed'
        rw [hsame.table, hsame.active]
        exact hes ed' (List.mem_cons_of_mem _ hed')

theorem Orderly.length_columnValues (h : e.Orderly) (hlt : e.active < e.table.columns.length) :
    (e.table.columnValues e.active).length = e.table.rows.length := by
  rw [h.table_eq] at hlt ⊢
  rw [Table.columnValues_filled (List.getElem?_eq_getElem hlt), List.length_map]

/-- Edits that solve the column leave the true values in it. -/
theorem Orderly.touched_of_solves (h : e.Orderly) (hpending : e.status[e.active]? = some .pending)
    (hes : e.Solves es) :
    touched e.active es e.activeGuesses = (e.table.columnValues e.active).map .truth := by
  obtain ⟨hlt, hactive⟩ := h.active_of_pending hpending
  have hlength := h.length_activeGuesses (canEdit_active hpending)
  have hvalues := h.length_columnValues hlt
  refine List.ext_getElem? fun k => ?_
  rw [touched, List.getElem?_mapIdx, List.getElem?_map, hlength]
  by_cases hk : k < e.table.rows.length
  · have hd : e.activeGuesses[k]? = some e.activeGuesses[k] := List.getElem?_eq_getElem (by omega)
    have hb : (e.table.columnValues e.active)[k]? = some (e.table.columnValues e.active)[k] :=
      List.getElem?_eq_getElem (by omega)
    have hcell : e.cell? e.active k = some e.activeGuesses[k] := by
      rw [cell?, hactive]
      exact hd
    rw [hd, hb, Option.map_some, Option.map_some, hes.solved k _ _ hcell hb]
  · rw [List.getElem?_eq_none (by omega), List.getElem?_eq_none (by omega)]
    rfl

/-- Edits that solve the column are accepted, and the check after them closes it. -/
theorem Orderly.closes_of_solves (h : e.Orderly) (hfin : e.isFinished = false)
    (hes : e.Solves es) : e.Closes es := by
  obtain ⟨hlt, hpending⟩ := h.pending_of_unfinished hfin
  have hedit := canEdit_active hpending
  have hrun : e.run (es.map Edit.move) =
      e.withActiveGuesses ((e.table.columnValues e.active).map .truth) := by
    rw [run_edits (h.active_lt hedit) hedit, h.touched_of_solves hpending hes]
  have hcheck : (e.withActiveGuesses ((e.table.columnValues e.active).map .truth)).check =
      .ok (some ⟨e.active, List.replicate e.table.rows.length .correct⟩,
        (e.withActiveGuesses ((e.table.columnValues e.active).map .truth)).advance) := by
    refine check_eq_ok_iff.mpr ⟨hfin, ?_, ?_⟩
    · rw [activeGuesses_withActiveGuesses (h.active_lt hedit)]
      exact Table.grade_truth hlt (h.length_columnValues hlt)
    · rw [Report.isComplete_replicate, if_pos rfl]
  refine ⟨h.accepts hpending hes.inside, _, ?_, rfl, Report.isComplete_replicate _ _,
    List.count_replicate_self⟩
  rw [round, hrun, after_check hcheck]
  exact hcheck

-- ── As many rounds as columns ─────────────────────────────────────────────

/-- An exercise is finished when all its columns are completed. -/
theorem Orderly.isFinished_iff_completed (h : e.Orderly) :
    e.isFinished = true ↔ e.completed = e.table.columns.length := by
  rw [completed, ← h.status_length, List.count_eq_length, isFinished, List.all_eq_true]
  simp only [decide_eq_true_eq]
  exact forall₂_congr fun s _ => eq_comm

theorem Orderly.completed_le (h : e.Orderly) : e.completed ≤ e.table.columns.length := by
  rw [completed, ← h.status_length]
  exact List.count_le_length

/-- A round that closes the column completes one column more. -/
theorem Orderly.completed_round (h : e.Orderly) (hfin : e.isFinished = false)
    (hes : e.Closes es) : (e.round es).completed = e.completed + 1 := by
  obtain ⟨r, hcheck, hcolumn, hcomplete, -⟩ := hes.report
  obtain ⟨hopen, hgrade, hafter⟩ := check_eq_ok_iff.mp hcheck
  rw [hcomplete, if_pos rfl] at hafter
  have hactive := (column_of_grade hgrade).symm.trans hcolumn
  rw [hafter, (h.run (es.map Edit.move)).completed_advance hopen, h.completed_eq hfin]
  omega

theorem Orderly.round (h : e.Orderly) (es : List Edit) : (e.round es).Orderly := by
  rw [round_eq_run]
  exact h.run _

theorem Orderly.play (h : e.Orderly) (rounds : List (List Edit)) : (e.play rounds).Orderly := by
  induction rounds generalizing e with
  | nil => exact h
  | cons es rounds ih => exact ih (h.round es)

theorem Orderly.table_round (h : e.Orderly) (es : List Edit) : (e.round es).table = e.table := by
  rw [round_eq_run]
  exact h.table_run _

section

variable {kind : Exercise → List Edit → Prop}

/-- When every round closes a column, the exercise is finished after as many rounds as
    there are columns left, and not before. -/
theorem Orderly.isFinished_play_iff
    (hcloses : ∀ e : Exercise, e.Orderly → e.isFinished = false → ∀ es, kind e es → e.Closes es)
    (h : e.Orderly) {rounds : List (List Edit)} (hrounds : RoundsOf kind e rounds) :
    (e.play rounds).isFinished = true ↔
      e.table.columns.length - e.completed ≤ rounds.length := by
  induction rounds generalizing e with
  | nil =>
      have hle := h.completed_le
      show e.isFinished = true ↔ _ ≤ 0
      rw [h.isFinished_iff_completed]
      omega
  | cons es rounds ih =>
      obtain ⟨hes, hrest⟩ := hrounds
      show ((e.round es).play rounds).isFinished = true ↔ _ ≤ rounds.length + 1
      rw [ih (h.round es) hrest, h.table_round]
      cases hfin : e.isFinished with
      | true =>
          have hall := h.isFinished_iff_completed.mp hfin
          rw [round_eq_run, run_of_isFinished hfin]
          omega
      | false =>
          rw [h.completed_round hfin (hcloses e h hfin es hes)]
          omega

/-- Edits that solve the column complete the exercise, if there are some of the kind in
    every unfinished state. -/
theorem Orderly.completableBy (hsolves : ∀ (e : Exercise) (es : List Edit), kind e es → e.Solves es)
    (hexists : ∀ e : Exercise, e.Orderly → e.isFinished = false → ∃ es, kind e es)
    (h : e.Orderly) (hfin : e.isFinished = false) : e.CompletableBy kind := by
  have hcloses : ∀ e : Exercise, e.Orderly → e.isFinished = false →
      ∀ es, kind e es → e.Closes es := by
    intro e h hfin es hes
    exact h.closes_of_solves hfin (hsolves e es hes)
  have hfinishes : ∀ rounds, RoundsOf kind e rounds → ((e.play rounds).isFinished = true ↔
      e.table.columns.length - e.active ≤ rounds.length) := by
    intro rounds hrounds
    rw [← h.completed_eq hfin]
    exact h.isFinished_play_iff hcloses hrounds
  refine ⟨fun rounds hrounds hfew => ?_, hfinishes⟩
  have hopen : (e.play rounds).isFinished = false := by
    refine Bool.eq_false_iff.mpr fun hdone => ?_
    have henough := (hfinishes rounds hrounds).mp hdone
    omega
  exact ⟨hexists _ (h.play rounds) hopen, hcloses _ (h.play rounds) hopen⟩

end

/-- Fewer complete reports than columns left do not finish the exercise, whatever else is
    done. -/
theorem Orderly.unfinished_of_few (h : e.Orderly) {later : List Move}
    (hfew : ((e.reports later).filter Report.isComplete).length <
      e.table.columns.length - e.completed) : (e.run later).isFinished = false := by
  obtain ⟨k, hrun, hcolumns⟩ := h.columns_of_reports later
  have hk := congrArg List.length hcolumns
  rw [List.length_map, List.length_map, List.length_range'] at hk
  cases hfin : (e.run later).isFinished with
  | false => rfl
  | true =>
      have hall := (h.run later).isFinished_iff_completed.mp hfin
      rw [h.table_run] at hall
      omega

-- ── Two ways to solve a column ────────────────────────────────────────────

theorem staysInside_plan (e : Exercise) (touches : Nat → List Touch) :
    e.StaysInside (Edit.plan e.active touches e.table.rows.length) := by
  intro ed hed
  obtain ⟨j, hj, hcolumn, hrow, -⟩ := Edit.mem_plan hed
  refine ⟨hcolumn, ?_, ?_⟩ <;> omega

/-- Every cell of the active column can be overwritten with its true value. -/
theorem Orderly.exists_overwrites (h : e.Orderly) (hfin : e.isFinished = false) :
    ∃ es, e.Overwrites es := by
  have hvalues := h.length_columnValues (h.pending_of_unfinished hfin).1
  refine ⟨_, staysInside_plan e fun k =>
    ((e.table.columnValues e.active)[k]?.map fun b => Touch.put (.truth b)).toList, ?_⟩
  intro k b hb
  have hk : k < e.table.rows.length := by
    rw [← hvalues]
    exact (List.getElem?_eq_some_iff.mp hb).1
  rw [Edit.touchesOn_plan hk, if_pos hk, hb]
  rfl

/-- Every cell of the active column can be turned until it has its true value. -/
theorem Orderly.exists_turns (h : e.Orderly) (hfin : e.isFinished = false) :
    ∃ es, e.Turns es := by
  have hvalues := h.length_columnValues (h.pending_of_unfinished hfin).1
  have hturns : ∀ k : Nat, ∃ m : Nat, ∀ (d : Datum) (b : Bool), e.cell? e.active k = some d →
      (e.table.columnValues e.active)[k]? = some b →
        (List.replicate m Touch.turn).foldl Touch.apply d = .truth b := by
    intro k
    cases hd : e.cell? e.active k with
    | none => exact ⟨0, nofun⟩
    | some d =>
        cases hb : (e.table.columnValues e.active)[k]? with
        | none => exact ⟨0, nofun⟩
        | some b =>
            obtain ⟨m, hm⟩ := Touch.exists_turns d b
            refine ⟨m, fun d' b' hd' hb' => ?_⟩
            cases hd'
            cases hb'
            exact hm
  obtain ⟨m, hm⟩ := Classical.skolem.mp hturns
  refine ⟨_, ⟨staysInside_plan e fun k => List.replicate (m k) .turn, ?_⟩, ?_⟩
  · intro k d b hd hb
    have hk : k < e.table.rows.length := by
      rw [← hvalues]
      exact (List.getElem?_eq_some_iff.mp hb).1
    rw [Edit.touchesOn_plan hk, if_pos hk]
    exact hm k d b hd hb
  · intro ed hed
    obtain ⟨j, -, -, -, htouch⟩ := Edit.mem_plan hed
    exact List.eq_of_mem_replicate htouch

/-- **An exercise can be finished from wherever it stands.**  Take an exercise
    about any formula, after any moves, that is not finished, and let `n` be the
    number of its columns and `a` the active one.

    When edits bring every cell of the active column to the value that the table
    has there, all of them are accepted, and the check after them finds every row
    correct and closes the column.  Such rounds can be played one after another,
    and the exercise is finished as soon as there were `n - a` of them.  It is
    enough to overwrite each cell once, in any order, and it is enough to turn
    each cell until it has its value.

    No moves at all finish the exercise with fewer than `n - a` complete reports. -/
theorem completable_from_anywhere (loaded : Loaded) :
    ∃ e₀, start loaded = .ok e₀ ∧ ∀ moves : List Move,
      let e := e₀.run moves
      e.isFinished = false →
        e.CompletableBy Solves ∧ e.CompletableBy Overwrites ∧ e.CompletableBy Turns ∧
        ∀ later : List Move, ((e.reports later).filter Report.isComplete).length <
            e.table.columns.length - e.active → (e.run later).isFinished = false := by
  obtain ⟨e₀, hstart, -, horderly⟩ := orderly_start loaded
  refine ⟨e₀, hstart, fun moves hfin => ?_⟩
  have h := horderly.run moves
  refine ⟨?_, ?_, ?_, ?_⟩
  · refine h.completableBy (fun _ _ => id) (fun e h hopen => ?_) hfin
    obtain ⟨es, hes⟩ := h.exists_overwrites hopen
    exact ⟨es, hes.solves⟩
  · exact h.completableBy (fun _ _ => Overwrites.solves) (fun _ h => h.exists_overwrites) hfin
  · exact h.completableBy (fun _ _ => Turns.toSolves) (fun _ h => h.exists_turns) hfin
  · intro later hfew
    rw [← h.completed_eq hfin] at hfew
    exact h.unfinished_of_few hfew

/-- Also in the second of three columns, after numbers for truth values in the first one,
    and after a guess that is no truth value and a check in vain. -/
theorem completable_from_anywhere_odd_guess :
    let contradiction : Formula := .bin .and (.atom "P" none) (.neg (.atom "P" none) none) none
    let moves : List Move :=
      [.set 0 0 (.int 0), .set 0 1 (.int 1), .check, .set 1 (-1) (.text "yes"), .check]
    ∃ e₀, start (.ofFormula (.neg contradiction none)) = .ok e₀ ∧
      (e₀.run moves).active = 1 ∧ (e₀.run moves).table.columns.length = 3 ∧
      (e₀.run moves).isFinished = false ∧
      (e₀.run moves).CompletableBy Overwrites ∧ (e₀.run moves).CompletableBy Turns ∧
      ((e₀.run moves).run [.set 1 0 .null, .check, .check]).isFinished = false := by
  intro contradiction moves
  obtain ⟨e₀, hstart, hall⟩ := completable_from_anywhere (.ofFormula (.neg contradiction none))
  have hstate : (e₀.run moves).active = 1 ∧ (e₀.run moves).table.columns.length = 3 ∧
      (e₀.run moves).isFinished = false := by
    cases hstart
    decide +kernel
  obtain ⟨hactive, hcolumns, hopen⟩ := hstate
  obtain ⟨-, hoverwrites, hturns, hfewer⟩ := hall moves hopen
  refine ⟨e₀, hstart, hactive, hcolumns, hopen, hoverwrites, hturns, hfewer _ ?_⟩
  cases hstart
  decide +kernel

-- one cell set from either end, the other one turned
example :
    (start (.ofFormula (.neg (.atom "P" none) none))).map (fun e =>
      ((e.after (.set 0 0 (.text "yes"))).play
        [[⟨0, -2, .put (.truth false)⟩, ⟨0, 1, .turn⟩]]).isFinished) = .ok true := by
  rfl

end Exercise

end TruthTables
