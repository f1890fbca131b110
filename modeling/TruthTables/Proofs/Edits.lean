import TruthTables.Proofs.Progress

/-!
# Edits — cells are set and toggled independently of each other

    An edit puts a guess into a cell or turns the cell to its next value.  As
    long as no check comes between, what becomes of a cell depends on the
    touches that address it, in their order, and on nothing else
    (`run_edits`): a run of edits is one fold for each cell of the active
    column.  So edits may be reordered as long as no two touches of one cell
    change places.

    **Main result** (`edits_cell_by_cell`): this, in every state that an
    exercise can be in, together with what a single edit answers and changes.
-/

namespace TruthTables

/-- What an edit does to a cell. -/
inductive Touch where
  | put (guess : Datum)
  | turn

namespace Touch

/-- The cell after the touch. -/
def apply (d : Datum) : Touch → Datum
  | .put guess => guess
  | .turn => d.cycle

/-- What a position is used for first. -/
def use : Touch → OutOfRange
  | .put _ => .writing
  | .turn => .reading

end Touch

/-- A touch at a position; rows and columns are any integers. -/
structure Edit where
  column : Int
  row : Int
  touch : Touch

namespace Edit

/-- The edit as a move. -/
def move : Edit → Move
  | ⟨column, row, .put guess⟩ => .set column row guess
  | ⟨column, row, .turn⟩ => .toggle column row

/-- What the edit answers, with the state that it leaves. -/
def answer (e : Exercise) : Edit → Except OutOfRange (Bool × Exercise)
  | ⟨column, row, .put guess⟩ => e.setGuess column row guess
  | ⟨column, row, .turn⟩ => e.toggleGuess column row

/-- Whether the edit is one of the cell in row `k` of the active column: the row is
    counted from either end of the `n` rows. -/
def addresses (active n k : Nat) (ed : Edit) : Bool :=
  ed.column = active ∧ (ed.row = k ∨ ed.row = (k : Int) - n)

/-- The touches of the cell in row `k` of the active column, in order. -/
def touchesOn (active n k : Nat) (es : List Edit) : List Touch :=
  (es.filter (addresses active n k)).map touch

theorem addresses_iff {active n k : Nat} {ed : Edit} :
    ed.addresses active n k = true ↔
      ed.column = active ∧ (ed.row = k ∨ ed.row = (k : Int) - n) :=
  decide_eq_true_iff

theorem touchesOn_singleton (active n k : Nat) (ed : Edit) :
    touchesOn active n k [ed] = if ed.addresses active n k then [ed.touch] else [] := by
  simp only [touchesOn, List.filter_cons, List.filter_nil]
  cases ed.addresses active n k <;> rfl

theorem touchesOn_append (active n k : Nat) (es es' : List Edit) :
    touchesOn active n k (es ++ es') = touchesOn active n k es ++ touchesOn active n k es' := by
  rw [touchesOn, touchesOn, touchesOn, List.filter_append, List.map_append]

end Edit

namespace Exercise

-- ── One edit ──────────────────────────────────────────────────────────────

theorem after_move (e : Exercise) (ed : Edit) :
    e.after ed.move = match ed.answer e with
      | .ok (_, e') => e'
      | .error _ => e := by
  obtain ⟨column, row, touch⟩ := ed
  cases touch <;> rfl

/-- An edit of another column than the one that takes guesses is refused. -/
theorem answer_of_refused {e : Exercise} {ed : Edit} (h : e.canEdit ed.column = false) :
    ed.answer e = .ok (false, e) := by
  have hno : ¬ e.canEdit ed.column = true := by
    rw [h]
    exact Bool.false_ne_true
  obtain ⟨column, row, touch⟩ := ed
  cases touch with
  | put guess => exact if_neg hno
  | turn => exact if_neg hno

/-- An edit beyond the rows fails. -/
theorem answer_of_outside {e : Exercise} {ed : Edit} (h : e.canEdit ed.column = true)
    (hrow : position? e.activeGuesses.length ed.row = none) :
    ed.answer e = .error (.cause ed.row ed.touch.use) := by
  obtain ⟨column, row, touch⟩ := ed
  dsimp only at h hrow
  cases touch with
  | put guess =>
      simp only [Edit.answer, setGuess, if_pos h, replaceAt, hrow]
      rfl
  | turn =>
      simp only [Edit.answer, toggleGuess, if_pos h, itemAt, hrow]
      rfl

/-- The exercise with another datum in row `k` of the active column. -/
def withCell (e : Exercise) (k : Nat) (d : Datum) : Exercise :=
  e.withActiveGuesses (e.activeGuesses.set k d)

/-- Any other edit touches one cell. -/
theorem answer_of_position {e : Exercise} {ed : Edit} {k : Nat} {d : Datum}
    (h : e.canEdit ed.column = true) (hk : position? e.activeGuesses.length ed.row = some k)
    (hd : e.activeGuesses[k]? = some d) :
    ed.answer e = .ok (true, e.withCell k (ed.touch.apply d)) := by
  obtain ⟨column, row, touch⟩ := ed
  dsimp only at h hk
  cases touch with
  | put guess =>
      simp only [Edit.answer, setGuess, if_pos h, replaceAt, hk]
      rfl
  | turn =>
      simp only [Edit.answer, toggleGuess, if_pos h, itemAt, replaceAt, hk, Option.bind_some, hd]
      rfl

-- ── Runs of edits ─────────────────────────────────────────────────────────

theorem set_activeGuesses (e : Exercise) :
    e.guesses.set e.active e.activeGuesses = e.guesses := by
  rw [activeGuesses]
  by_cases hlt : e.active < e.guesses.length
  · rw [List.getElem?_eq_getElem hlt, Option.getD_some, List.set_getElem_self]
  · exact List.set_eq_of_length_le (Nat.le_of_not_lt hlt)

theorem withActiveGuesses_activeGuesses (e : Exercise) :
    e.withActiveGuesses e.activeGuesses = e := by
  rw [withActiveGuesses, set_activeGuesses]

theorem activeGuesses_withActiveGuesses {e : Exercise} (h : e.active < e.guesses.length)
    (cells : List Datum) : (e.withActiveGuesses cells).activeGuesses = cells := by
  show (e.guesses.set e.active cells)[e.active]?.getD [] = cells
  rw [List.getElem?_set_self h]
  rfl

theorem withActiveGuesses_withActiveGuesses (e : Exercise) (cells cells' : List Datum) :
    (e.withActiveGuesses cells).withActiveGuesses cells' = e.withActiveGuesses cells' := by
  show { e with guesses := (e.guesses.set e.active cells).set e.active cells' } = _
  rw [List.set_set]
  rfl

/-- The cells of a column after some edits, each cell after its own touches. -/
def touched (active : Nat) (es : List Edit) (cells : List Datum) : List Datum :=
  cells.mapIdx fun k d => (Edit.touchesOn active cells.length k es).foldl Touch.apply d

theorem touched_nil (active : Nat) (cells : List Datum) : touched active [] cells = cells := by
  refine List.mapIdx_eq_iff.mpr fun k => ?_
  cases cells[k]? <;> rfl

theorem touched_cons (active : Nat) (ed : Edit) (es : List Edit) (cells : List Datum) :
    touched active (ed :: es) cells = touched active es (touched active [ed] cells) := by
  rw [touched, touched, touched, List.length_mapIdx, List.mapIdx_mapIdx]
  refine List.mapIdx_eq_mapIdx_iff.mpr fun k _ => ?_
  have hsplit : ed :: es = [ed] ++ es := rfl
  rw [hsplit, Edit.touchesOn_append, List.foldl_append]
  rfl

/-- An edit that addresses no cell leaves the column. -/
theorem touched_of_not_addresses {active : Nat} {ed : Edit} {cells : List Datum}
    (h : ∀ k < cells.length, ¬ ed.addresses active cells.length k = true) :
    touched active [ed] cells = cells := by
  refine List.mapIdx_eq_iff.mpr fun k => ?_
  by_cases hk : k < cells.length
  · rw [Edit.touchesOn_singleton, if_neg (h k hk)]
    cases cells[k]? <;> rfl
  · rw [List.getElem?_eq_none (Nat.le_of_not_lt hk)]
    rfl

/-- An edit of one cell sets this cell. -/
theorem touched_of_position {active k : Nat} {ed : Edit} {cells : List Datum} {d : Datum}
    (hcolumn : ed.column = active) (hk : position? cells.length ed.row = some k)
    (hd : cells[k]? = some d) :
    touched active [ed] cells = cells.set k (ed.touch.apply d) := by
  obtain ⟨hlt, hrow⟩ := position?_eq_some_iff.mp hk
  refine List.mapIdx_eq_iff.mpr fun j => ?_
  rw [Edit.touchesOn_singleton]
  by_cases hj : k = j
  · subst hj
    rw [List.getElem?_set_self hlt, if_pos (Edit.addresses_iff.mpr ⟨hcolumn, hrow⟩), hd]
    rfl
  · rw [List.getElem?_set_ne hj]
    by_cases hjlt : j < cells.length
    · -- a position points at one row only
      have hno : ¬ ed.addresses active cells.length j = true := by
        intro hjrow
        have hrow' := (Edit.addresses_iff.mp hjrow).2
        omega
      rw [if_neg hno]
      cases cells[j]? <;> rfl
    · rw [List.getElem?_eq_none (Nat.le_of_not_lt hjlt)]
      rfl

theorem column_of_canEdit {e : Exercise} {column : Int} (h : e.canEdit column = true) :
    column = e.active := by
  simp only [canEdit, Bool.and_eq_true, decide_eq_true_eq] at h
  exact h.1

/-- An edit while the active column takes guesses. -/
theorem after_edit {e : Exercise} (h : e.canEdit e.active = true) (ed : Edit) :
    e.after ed.move = e.withActiveGuesses (touched e.active [ed] e.activeGuesses) := by
  have hsame : (∀ k < e.activeGuesses.length,
      ¬ ed.addresses e.active e.activeGuesses.length k = true) →
      e.withActiveGuesses (touched e.active [ed] e.activeGuesses) = e := by
    intro hno
    rw [touched_of_not_addresses hno, withActiveGuesses_activeGuesses]
  rw [after_move]
  cases hedit : e.canEdit ed.column with
  | false =>
      rw [answer_of_refused hedit]
      refine (hsame fun k _ hk => ?_).symm
      rw [(Edit.addresses_iff.mp hk).1, h] at hedit
      cases hedit
  | true =>
      cases hpos : position? e.activeGuesses.length ed.row with
      | none =>
          rw [answer_of_outside hedit hpos]
          refine (hsame fun k hlt hk => ?_).symm
          rw [position?_eq_some_iff.mpr ⟨hlt, (Edit.addresses_iff.mp hk).2⟩] at hpos
          cases hpos
      | some k =>
          have hd := List.getElem?_eq_getElem (position?_eq_some_iff.mp hpos).1
          rw [answer_of_position hedit hpos hd,
            touched_of_position (column_of_canEdit hedit) hpos hd]
          rfl

/-- **A run of edits is a fold for each cell.** -/
theorem run_edits {e : Exercise} (hlt : e.active < e.guesses.length)
    (h : e.canEdit e.active = true) (es : List Edit) :
    e.run (es.map Edit.move) = e.withActiveGuesses (touched e.active es e.activeGuesses) := by
  induction es generalizing e with
  | nil =>
      show e = e.withActiveGuesses (touched e.active [] e.activeGuesses)
      rw [touched_nil, withActiveGuesses_activeGuesses]
  | cons ed es ih =>
      show (e.after ed.move).run (es.map Edit.move) = _
      rw [touched_cons e.active ed es, after_edit h, ih]
      · rw [activeGuesses_withActiveGuesses hlt, withActiveGuesses_withActiveGuesses]
        rfl
      -- an edit changes neither the number of columns nor which one takes guesses
      · show e.active < (e.guesses.set e.active _).length
        rwa [List.length_set]
      · exact h

/-- While the active column takes no guesses, edits change nothing. -/
theorem run_edits_of_refused {e : Exercise} (h : e.canEdit e.active = false) (es : List Edit) :
    e.run (es.map Edit.move) = e := by
  have hrefused : ∀ column, e.canEdit column = false := by
    intro column
    cases hc : e.canEdit column with
    | false => rfl
    | true =>
        rw [column_of_canEdit hc, h] at hc
        cases hc
  induction es with
  | nil => rfl
  | cons ed es ih =>
      show (e.after ed.move).run (es.map Edit.move) = _
      rw [after_move, answer_of_refused (hrefused ed.column)]
      exact ih

-- ── One cell and the rest ─────────────────────────────────────────────────

/-- The cell in a row of a column, if there is one. -/
def cell? (e : Exercise) (column row : Nat) : Option Datum :=
  e.guesses[column]?.bind (·[row]?)

/-- The states differ at most in row `k` of the active column. -/
structure SameBut (k : Nat) (e e' : Exercise) : Prop where
  loaded : e'.loaded = e.loaded
  table : e'.table = e.table
  status : e'.status = e.status
  active : e'.active = e.active
  /-- As many columns, and as many cells in each. -/
  lengths : e'.guesses.map List.length = e.guesses.map List.length
  cells : ∀ column row, ¬ (column = e.active ∧ row = k) →
    e'.cell? column row = e.cell? column row

theorem cell?_withCell_self {e : Exercise} {k : Nat} (h : e.active < e.guesses.length)
    (hk : k < e.activeGuesses.length) (d : Datum) :
    (e.withCell k d).cell? e.active k = some d := by
  show (e.guesses.set e.active (e.activeGuesses.set k d))[e.active]?.bind (·[k]?) = some d
  rw [List.getElem?_set_self h, Option.bind_some, List.getElem?_set_self hk]

theorem cell?_withCell_ne {e : Exercise} {k column row : Nat}
    (hne : ¬ (column = e.active ∧ row = k)) (d : Datum) :
    (e.withCell k d).cell? column row = e.cell? column row := by
  show (e.guesses.set e.active (e.activeGuesses.set k d))[column]?.bind (·[row]?) =
    e.guesses[column]?.bind (·[row]?)
  by_cases hcolumn : e.active = column
  · subst hcolumn
    have hrow : k ≠ row := fun hrow => hne ⟨rfl, hrow.symm⟩
    by_cases h : e.active < e.guesses.length
    · rw [List.getElem?_set_self h, Option.bind_some, List.getElem?_set_ne hrow, activeGuesses,
        List.getElem?_eq_getElem h, Option.bind_some, Option.getD_some]
    · rw [List.set_eq_of_length_le (Nat.le_of_not_lt h)]
  · rw [List.getElem?_set_ne hcolumn]

theorem sameBut_withCell (e : Exercise) (k : Nat) (d : Datum) : SameBut k e (e.withCell k d) where
  loaded := rfl
  table := rfl
  status := rfl
  active := rfl
  lengths := by
    show (e.guesses.set e.active (e.activeGuesses.set k d)).map List.length = _
    rw [List.map_set, List.length_set, ← List.map_set, set_activeGuesses]
  cells _ _ hne := cell?_withCell_ne hne d

-- ── Every state of an exercise ────────────────────────────────────────────

theorem Orderly.active_lt {e : Exercise} (h : e.Orderly) {column : Int}
    (hedit : e.canEdit column = true) : e.active < e.guesses.length := by
  rw [h.guesses_length]
  exact (h.active_of_pending (status_of_canEdit hedit)).1

theorem Orderly.length_activeGuesses {e : Exercise} (h : e.Orderly) {column : Int}
    (hedit : e.canEdit column = true) : e.activeGuesses.length = e.table.rows.length :=
  h.cells_length _
    (List.mem_of_getElem? (h.active_of_pending (status_of_canEdit hedit)).2)

/-- Only the order of the touches within each cell counts. -/
theorem Orderly.run_edits_congr {e : Exercise} (h : e.Orderly) {es es' : List Edit}
    (hes : ∀ k < e.table.rows.length, Edit.touchesOn e.active e.table.rows.length k es =
      Edit.touchesOn e.active e.table.rows.length k es') :
    e.run (es.map Edit.move) = e.run (es'.map Edit.move) := by
  cases hedit : e.canEdit e.active with
  | false => rw [run_edits_of_refused hedit, run_edits_of_refused hedit]
  | true =>
      have htouched : touched e.active es e.activeGuesses =
          touched e.active es' e.activeGuesses := by
        refine List.mapIdx_eq_mapIdx_iff.mpr fun k hk => ?_
        rw [h.length_activeGuesses hedit] at hk ⊢
        rw [hes k hk]
      rw [run_edits (h.active_lt hedit) hedit, run_edits (h.active_lt hedit) hedit, htouched]

/-- An edit within the rows of the column that takes guesses. -/
theorem Orderly.edit_inside {e : Exercise} (h : e.Orderly) {ed : Edit}
    (hedit : e.canEdit ed.column = true) (hlow : -(e.table.rows.length : Int) ≤ ed.row)
    (hhigh : ed.row < e.table.rows.length) :
    ∃ k < e.table.rows.length, ed.addresses e.active e.table.rows.length k = true ∧
      ∃ d, e.cell? e.active k = some d ∧ ed.answer e = .ok (true, e.after ed.move) ∧
        (e.after ed.move).cell? e.active k = some (ed.touch.apply d) ∧
        SameBut k e (e.after ed.move) := by
  have hlength := h.length_activeGuesses hedit
  cases hpos : position? e.activeGuesses.length ed.row with
  | none =>
      have hout := position?_eq_none_iff.mp hpos
      omega
  | some k =>
      obtain ⟨hk, hrow⟩ := position?_eq_some_iff.mp hpos
      have hd : e.activeGuesses[k]? = some e.activeGuesses[k] := List.getElem?_eq_getElem hk
      have hanswer := answer_of_position hedit hpos hd
      have hafter : e.after ed.move = e.withCell k (ed.touch.apply e.activeGuesses[k]) := by
        rw [after_move, hanswer]
      have hcell : e.cell? e.active k = some e.activeGuesses[k] := by
        rw [cell?, (h.active_of_pending (status_of_canEdit hedit)).2]
        exact hd
      rw [hafter]
      refine ⟨k, hlength ▸ hk, Edit.addresses_iff.mpr ⟨column_of_canEdit hedit, hlength ▸ hrow⟩,
        e.activeGuesses[k], hcell, hanswer, ?_, sameBut_withCell e k _⟩
      exact cell?_withCell_self (h.active_lt hedit) hk _

/-- **Edits act cell by cell.**  Take an exercise about any formula, after any moves, and let
    its table have `n` rows.

    Two runs of edits end in the same state if for each cell of the active
    column they have the same touches of this cell in the same order.  A row
    counted from the end is the row that it names.

    An edit of a column that takes no guesses is refused, whatever the row,
    and changes nothing.  An edit of the column that does fails if its row is
    not in `-n..n-1`, and changes nothing.  Any other edit succeeds: it
    applies its touch to the one cell that it addresses and leaves everything
    else as it was. -/
theorem edits_cell_by_cell (loaded : Loaded) :
    ∃ e₀, start loaded = .ok e₀ ∧ ∀ moves : List Move,
      let e := e₀.run moves
      let n := e.table.rows.length
      (∀ es es' : List Edit,
        (∀ k < n, Edit.touchesOn e.active n k es = Edit.touchesOn e.active n k es') →
          e.run (es.map Edit.move) = e.run (es'.map Edit.move)) ∧
      ∀ ed : Edit,
        (e.canEdit ed.column = false →
          ed.answer e = .ok (false, e) ∧ e.after ed.move = e) ∧
        (e.canEdit ed.column = true → (ed.row < -n ∨ n ≤ ed.row) →
          ed.answer e = .error (.cause ed.row ed.touch.use) ∧ e.after ed.move = e) ∧
        (e.canEdit ed.column = true → -n ≤ ed.row → ed.row < n →
          ∃ k < n, ed.addresses e.active n k = true ∧
            ∃ d, e.cell? e.active k = some d ∧ ed.answer e = .ok (true, e.after ed.move) ∧
              (e.after ed.move).cell? e.active k = some (ed.touch.apply d) ∧
              SameBut k e (e.after ed.move)) := by
  obtain ⟨e₀, hstart, -, horderly⟩ := orderly_start loaded
  refine ⟨e₀, hstart, fun moves => ?_⟩
  have h := horderly.run moves
  refine ⟨fun es es' => h.run_edits_congr, fun ed => ⟨?refused, ?outside, h.edit_inside⟩⟩
  case refused =>
    intro hedit
    have hanswer := answer_of_refused hedit
    exact ⟨hanswer, by rw [after_move, hanswer]⟩
  case outside =>
    intro hedit hrow
    rw [← h.length_activeGuesses hedit] at hrow
    have hanswer := answer_of_outside hedit (position?_eq_none_iff.mpr hrow)
    exact ⟨hanswer, by rw [after_move, hanswer]⟩

end Exercise

end TruthTables
