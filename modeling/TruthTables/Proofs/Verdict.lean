import TruthTables.Proofs.Checks
import TruthTables.Proofs.Printing

/-!
# Verdict — when a learner is told what the formula is

    The summary of a report may end with a sentence that says what the formula
    is across all rows.  It looks at the report alone: the sentence is there
    when the report is complete and on the last column
    (`sentence_suffix_iff`).  The exercise closes columns by a test of its own
    (`isFinished_check_iff`).  Here the two are found to agree: the summary
    ends with the sentence exactly when the check that returned the report
    finished the exercise, and then no later check returns anything.

    A summary also quotes the heading of its column, and a name may hold any
    words.  So the words that the sentence begins with are looked for outside
    of the heading.  In a heading they stand only if some name holds them
    (`exists_name_of_announces`), which no name read from a text does.
-/

namespace TruthTables

-- ── Words in a text ───────────────────────────────────────────────────────

/-- The characters hold the words that the sentence about the formula begins
    with. -/
def Announces (cs : List Char) : Prop := "This formula is".toList <:+: cs

theorem not_announces_of_not_mem {c : Char} {cs : List Char} (hc : c ∈ "This formula is".toList)
    (h : c ∉ cs) : ¬ Announces cs :=
  fun hw => h (hw.subset hc)

theorem announces_cons {c : Char} {cs : List Char} (h : Announces (c :: cs)) (hc : c ≠ 'T') :
    Announces cs := by
  rcases List.infix_cons_iff.mp h with hprefix | hinfix
  · obtain ⟨rest, hrest⟩ := hprefix
    exact absurd (List.cons.inj hrest).1.symm hc
  · exact hinfix

theorem announces_concat {c : Char} {cs : List Char} (h : Announces (cs ++ [c])) (hc : c ≠ 's') :
    Announces cs := by
  rcases List.infix_concat_iff.mp h with hsuffix | hinfix
  · have hlast := hsuffix.getLast (by decide)
    rw [List.getLast_concat] at hlast
    have hs : 's' = c := hlast
    exact absurd hs.symm hc
  · exact hinfix

/-- Words do not reach across a character that is not in them. -/
theorem announces_split {c : Char} {xs ys : List Char} (h : Announces (xs ++ c :: ys))
    (hc : c ∉ "This formula is".toList) : Announces xs ∨ Announces ys := by
  rcases List.infix_append_iff.mp h with hxs | hys | ⟨front, back, heq, hfront, hback⟩
  · exact .inl hxs
  · rcases List.infix_cons_iff.mp hys with hprefix | hinfix
    · obtain ⟨rest, hrest⟩ := hprefix
      have hT : 'T' = c := (List.cons.inj hrest).1
      exact absurd (by rw [← hT]; decide) hc
    · exact .inr hinfix
  · cases back with
    | nil =>
        rw [List.append_nil] at heq
        rw [← heq] at hfront
        exact .inl hfront.isInfix
    | cons d back =>
        obtain ⟨rest, hrest⟩ := hback
        obtain rfl : d = c := (List.cons.inj hrest).1
        refine absurd ?_ hc
        rw [heq]
        exact List.mem_append.mpr (.inr (List.mem_cons_self ..))

/-- Nor across the parentheses around a heading. -/
theorem announces_parts {front label rest : List Char}
    (h : Announces (front ++ '(' :: (label ++ ')' :: rest))) :
    Announces front ∨ Announces label ∨ Announces rest :=
  (announces_split h (by decide)).imp_right fun hrest => announces_split hrest (by decide)

/-- The connectives of a heading are single characters that are not in the words. -/
theorem exists_glyph (op : BinOp) :
    ∃ c, (Glyphs.unicode.bin op).toList = [c] ∧ c ∉ "This formula is".toList := by
  cases op with
  | and => exact ⟨'∧', rfl, by decide⟩
  | or => exact ⟨'∨', rfl, by decide⟩
  | imp => exact ⟨'→', rfl, by decide⟩
  | bicond => exact ⟨'↔', rfl, by decide⟩

/-- A heading holds the words only if a name in it does. -/
theorem Formula.exists_name_of_announces {f : Formula} (h : Announces f.unicode.toList) :
    ∃ name ∈ f.leafNames, Announces name.toList := by
  rw [unicode] at h
  induction f with
  | atom name i => exact ⟨name, List.mem_singleton.mpr rfl, h⟩
  | neg f i ih =>
      rw [render, String.toList_append] at h
      exact ih (announces_cons h (by decide))
  | bin op l r i ihl ihr =>
      obtain ⟨c, hglyph, hc⟩ := exists_glyph op
      have htext : (render .unicode (.bin op l r i)).toList =
          ('(' :: ((l.render .unicode).toList ++ [' '])) ++
            c :: (' ' :: ((r.render .unicode).toList ++ [')'])) := by
        simp [render, hglyph]
      rw [htext] at h
      rcases announces_split h hc with hleft | hright
      · have hl := announces_concat (announces_cons hleft (by decide)) (by decide)
        obtain ⟨name, hn, hname⟩ := ihl hl
        exact ⟨name, List.mem_append.mpr (.inl hn), hname⟩
      · have hr := announces_concat (announces_cons hright (by decide)) (by decide)
        obtain ⟨name, hn, hname⟩ := ihr hr
        exact ⟨name, List.mem_append.mpr (.inr hn), hname⟩

-- the heading of a column, in a report that finishes nothing
example : Announces (Formula.neg (.atom "This formula is" none) none).unicode.toList :=
  ⟨['¬'], [], rfl⟩

/-- Numbers are written with digits. -/
theorem isDigit_of_mem_toString {c : Char} {n : Nat} (h : c ∈ (toString n).toList) :
    c.isDigit = true := by
  rw [Nat.toString_eq_repr, Nat.toList_repr] at h
  exact Nat.isDigit_of_mem_toDigits (by decide) (by decide) h

theorem isDigit_or_of_mem_toString {c : Char} {i : Int} (h : c ∈ (toString i).toList) :
    c.isDigit = true ∨ c = '-' := by
  cases i with
  | ofNat n => exact .inl (isDigit_of_mem_toString h)
  | negSucc n =>
      have h' : c ∈ ("-" ++ toString (n + 1)).toList := h
      rw [String.toList_append] at h'
      rcases List.mem_append.mp h' with hm | hd
      · exact .inr (List.mem_singleton.mp hm)
      · exact .inl (isDigit_of_mem_toString hd)

-- ── The text of a summary ─────────────────────────────────────────────────

/-- The counts of a report in words. -/
def Report.counts (r : Report) : String :=
  "): Correct: " ++ toString r.correct ++ ", Incorrect: " ++ toString r.incorrect ++
    ", Missing: " ++ toString r.missing ++ "."

theorem Report.not_mem_counts (r : Report) {c : Char} (hc : c = 'T' ∨ c = 'm') :
    c ∉ r.counts.toList := by
  have hnumber : ∀ n : Nat, c ∉ (toString n).toList := by
    intro n h
    rcases hc with rfl | rfl
    · exact absurd (isDigit_of_mem_toString h) (by decide)
    · exact absurd (isDigit_of_mem_toString h) (by decide)
  unfold counts
  simp only [String.toList_append, List.mem_append, not_or]
  rcases hc with rfl | rfl
  · exact ⟨⟨⟨⟨⟨⟨by decide, hnumber _⟩, by decide⟩, hnumber _⟩, by decide⟩, hnumber _⟩, by decide⟩
  · exact ⟨⟨⟨⟨⟨⟨by decide, hnumber _⟩, by decide⟩, hnumber _⟩, by decide⟩, hnumber _⟩, by decide⟩

theorem Report.exists_counts (r : Report) : ∃ back, r.counts.toList = ')' :: back := by
  unfold counts
  simp only [String.toList_append, List.append_assoc]
  exact ⟨_, rfl⟩

/-- The sentence that says what the formula is. -/
def Classification.sentence (c : Classification) : String := "This formula is " ++ c.phrase ++ "."

theorem Classification.announces_sentence (c : Classification) : Announces c.sentence.toList := by
  unfold sentence
  rw [String.toList_append, String.toList_append]
  exact ⟨[], ' ' :: (c.phrase.toList ++ ".".toList), rfl⟩

/-- Of two ends of one text the shorter is an end of the longer. -/
theorem not_suffix_append {xs ys front : List Char} (hxs : ¬ xs <:+ ys) (hys : ¬ ys <:+ xs) :
    ¬ xs <:+ front ++ ys := fun h =>
  (List.suffix_or_suffix_of_suffix h (List.suffix_append front ys)).elim hxs hys

/-- A text ends with one sentence at most. -/
theorem Classification.sentence_suffix_append_iff (front : List Char) (c d : Classification) :
    c.sentence.toList <:+ front ++ d.sentence.toList ↔ d = c := by
  constructor
  · intro h
    cases c <;> cases d <;> first | rfl | exact absurd h (not_suffix_append (by decide) (by decide))
  · rintro rfl
    exact List.suffix_append _ _

namespace Exercise

/-- What a summary says before the heading of the column. -/
def opening (e : Exercise) (r : Report) : String :=
  "Column " ++ toString (r.column + 1) ++ " of " ++ toString e.table.columns.length ++ " ("

/-- What a summary says after the counts. -/
def outcome (e : Exercise) (r : Report) : String :=
  if !r.isComplete then " Try fixing the highlighted rows."
  else if r.column < (e.table.columns.length : Int) - 1 then
    " ✅ All rows correct. Moving to the next subformula column."
  else
    " ✅ All rows correct. You have completed all subformulas. This formula is " ++
      e.table.classify.phrase ++ "."

theorem outcome_of_incomplete {e : Exercise} {r : Report} (h : r.isComplete = false) :
    e.outcome r = " Try fixing the highlighted rows." := by
  rw [outcome, h]
  rfl

theorem outcome_of_lt {e : Exercise} {r : Report} (h : r.isComplete = true)
    (hnext : r.column < (e.table.columns.length : Int) - 1) :
    e.outcome r = " ✅ All rows correct. Moving to the next subformula column." := by
  rw [outcome, h, if_neg (by decide), if_pos hnext]

theorem outcome_of_last {e : Exercise} {r : Report} (h : r.isComplete = true)
    (hnext : ¬ r.column < (e.table.columns.length : Int) - 1) :
    e.outcome r = " ✅ All rows correct. You have completed all subformulas. " ++
      e.table.classify.sentence := by
  rw [outcome, h, if_neg (by decide), if_neg hnext]
  have hassoc : ∀ a b c d : String, a ++ b ++ c ++ d = a ++ (b ++ c ++ d) := by
    intro a b c d
    simp only [String.append_assoc]
  exact hassoc " ✅ All rows correct. You have completed all subformulas. " "This formula is "
    e.table.classify.phrase "."

/-- The heading of the column stands in the middle of a summary. -/
theorem summarize_eq {e : Exercise} {r : Report} {label : String}
    (h : e.table.label r.column = .ok label) :
    e.summarize r = .ok (e.opening r ++ label ++ (r.counts ++ e.outcome r)) := by
  rw [summarize, h]
  unfold opening Report.counts outcome
  simp only [bind, Except.bind, pure, Except.pure, String.append_assoc]

theorem exists_opening (e : Exercise) (r : Report) :
    ∃ front, (e.opening r).toList = front ++ ['('] := by
  unfold opening
  rw [String.toList_append, show " (".toList = [' '] ++ ['('] from rfl, ← List.append_assoc]
  exact ⟨_, rfl⟩

theorem not_announces_opening (e : Exercise) (r : Report) : ¬ Announces (e.opening r).toList := by
  refine not_announces_of_not_mem (c := 'T') (by decide) ?_
  have hcolumn : 'T' ∉ (toString (r.column + 1)).toList := fun h =>
    absurd (isDigit_or_of_mem_toString h) (by decide)
  have htotal : 'T' ∉ (toString e.table.columns.length).toList := fun h =>
    absurd (isDigit_of_mem_toString h) (by decide)
  simp only [opening, String.toList_append, List.mem_append, not_or]
  exact ⟨⟨⟨⟨by decide, hcolumn⟩, by decide⟩, htotal⟩, by decide⟩

/-- The words follow the heading when the report is complete and on the last
    column. -/
theorem announces_closing_iff (e : Exercise) (r : Report) :
    Announces (r.counts ++ e.outcome r).toList ↔
      r.isComplete = true ∧ ¬ r.column < (e.table.columns.length : Int) - 1 := by
  rw [String.toList_append]
  cases hcomplete : r.isComplete with
  | false =>
      rw [outcome_of_incomplete hcomplete]
      refine iff_of_false (not_announces_of_not_mem (c := 'm') (by decide) ?_) fun h =>
        Bool.false_ne_true h.1
      exact fun h => (List.mem_append.mp h).elim (r.not_mem_counts (.inr rfl)) (by decide)
  | true =>
      by_cases hnext : r.column < (e.table.columns.length : Int) - 1
      · rw [outcome_of_lt hcomplete hnext]
        refine iff_of_false (not_announces_of_not_mem (c := 'T') (by decide) ?_) fun h => h.2 hnext
        exact fun h => (List.mem_append.mp h).elim (r.not_mem_counts (.inl rfl)) (by decide)
      · rw [outcome_of_last hcomplete hnext, String.toList_append, ← List.append_assoc]
        refine iff_of_true ?_ ⟨rfl, hnext⟩
        exact e.table.classify.announces_sentence.trans (List.suffix_append _ _).isInfix

/-- A heading that does not hold the words adds none. -/
theorem announces_summary_iff (e : Exercise) (r : Report) {label : String}
    (hlabel : ¬ Announces label.toList) :
    Announces (e.opening r ++ label ++ (r.counts ++ e.outcome r)).toList ↔
      Announces (r.counts ++ e.outcome r).toList := by
  rw [String.toList_append]
  constructor
  · intro h
    obtain ⟨front, hfront⟩ := e.exists_opening r
    obtain ⟨back, hback⟩ := r.exists_counts
    have hopening : ¬ Announces front := fun hf =>
      not_announces_opening e r (hfront ▸ hf.trans (List.prefix_append _ _).isInfix)
    have hparts : Announces (front ++ '(' ::
        (label.toList ++ ')' :: (back ++ (e.outcome r).toList))) := by
      simpa [String.toList_append, hfront, hback] using h
    have hrest := ((announces_parts hparts).resolve_left hopening).resolve_left hlabel
    rw [String.toList_append, hback, List.cons_append]
    exact hrest.trans (List.suffix_cons _ _).isInfix
  · intro h
    exact h.trans (List.suffix_append _ _).isInfix

/-- The last sentence of a summary is the one of the classification, when the
    report is complete and on the last column. -/
theorem sentence_suffix_iff (e : Exercise) (r : Report) (front : List Char) (c : Classification) :
    c.sentence.toList <:+ front ++ (e.outcome r).toList ↔
      (r.isComplete = true ∧ ¬ r.column < (e.table.columns.length : Int) - 1) ∧
        e.table.classify = c := by
  cases hcomplete : r.isComplete with
  | false =>
      rw [outcome_of_incomplete hcomplete]
      refine iff_of_false (not_suffix_append ?_ ?_) fun h => Bool.false_ne_true h.1.1
      · cases c <;> decide
      · cases c <;> decide
  | true =>
      by_cases hnext : r.column < (e.table.columns.length : Int) - 1
      · rw [outcome_of_lt hcomplete hnext]
        refine iff_of_false (not_suffix_append ?_ ?_) fun h => h.1.2 hnext
        · cases c <;> decide
        · cases c <;> decide
      · rw [outcome_of_last hcomplete hnext, String.toList_append, ← List.append_assoc,
          Classification.sentence_suffix_append_iff]
        exact (and_iff_right ⟨rfl, hnext⟩).symm

-- ── What a check leaves behind ────────────────────────────────────────────

/-- So a report is summarized alike at any later time. -/
theorem Orderly.summarize_run {e : Exercise} (h : e.Orderly) (moves : List Move) (r : Report) :
    (e.run moves).summarize r = e.summarize r := by
  rw [summarize, summarize, h.table_run]

/-- In a finished exercise no move returns a report. -/
theorem reports_of_isFinished {e : Exercise} (h : e.isFinished = true) (moves : List Move) :
    e.reports moves = [] := by
  induction moves with
  | nil => rfl
  | cons m ms ih =>
      have hquiet : e.report? m = none := by
        cases m with
        | set column row guess => rfl
        | toggle column row => rfl
        | check => simp only [report?, check_of_isFinished h]
      rw [reports, hquiet, (step_after e m).eq_of_isFinished h, ih]
      rfl

/-- A check finishes the exercise exactly when its report is complete and on
    the last column. -/
theorem Orderly.isFinished_check_iff {e e' : Exercise} {r : Report} (h : e.Orderly)
    (hcheck : e.check = .ok (some r, e')) :
    e'.isFinished = true ↔
      r.isComplete = true ∧ ¬ r.column < (e.table.columns.length : Int) - 1 := by
  obtain ⟨hfin, hgrade, hafter⟩ := check_eq_ok_iff.mp hcheck
  obtain ⟨hlt, -⟩ := h.pending_of_unfinished hfin
  rw [column_of_grade hgrade]
  cases hcomplete : r.isComplete with
  | false =>
      rw [hcomplete, if_neg Bool.false_ne_true] at hafter
      rw [hafter, hfin]
      exact iff_of_false Bool.false_ne_true fun h => Bool.false_ne_true h.1
  | true =>
      rw [hcomplete, if_pos rfl] at hafter
      have hlast : e.advance.isFinished = true ↔ e.table.columns.length = 0 ∨
          (e.status.set e.active .correct)[e.table.columns.length - 1]? = some .correct :=
        (h.advance hfin hgrade hcomplete).isFinished_iff
      rw [hafter, hlast]
      by_cases hnext : e.active < e.table.columns.length - 1
      · -- the last column is right of the active one, so it is still pending
        rw [List.getElem?_set_ne (by omega), (h.right _ hnext (by omega)).1]
        refine iff_of_false ?_ (by omega)
        rintro (hzero | hpending)
        · omega
        · cases hpending
      · have hactive : e.table.columns.length - 1 = e.active := by omega
        have hlts : e.active < e.status.length := by
          rw [h.status_length]
          exact hlt
        rw [hactive, List.getElem?_set_self hlts]
        exact iff_of_true (.inr rfl) ⟨rfl, by omega⟩

/-- The heading of the column that a check reports on is that of a subformula. -/
theorem Orderly.label_of_check {e e' : Exercise} {r : Report} (h : e.Orderly)
    (hcheck : e.check = .ok (some r, e')) :
    ∃ col ∈ e.loaded.root.subformulas, e.table.label r.column = .ok col.unicode := by
  obtain ⟨hfin, hgrade, -⟩ := check_eq_ok_iff.mp hcheck
  obtain ⟨hlt, -⟩ := h.pending_of_unfinished hfin
  have hcolumns : e.table.columns = e.loaded.root.subformulas := by
    rw [h.table_eq]
    rfl
  have hmem : e.table.columns[e.active] ∈ e.loaded.root.subformulas :=
    hcolumns ▸ List.getElem_mem hlt
  refine ⟨_, hmem, ?_⟩
  rw [column_of_grade hgrade, Table.label, itemAt_of_getElem? (List.getElem?_eq_getElem hlt)]
  rfl

/-- What the summary `s` of a report says about the formula `root`, when the
    check that returned the report left the state `e`. -/
structure Reveals (root : Formula) (e : Exercise) (r : Report) (s : String) : Prop where
  /-- The summary ends with the sentence of a classification exactly when the check
      finished the exercise and the classification is true of the formula. -/
  verdict : ∀ c : Classification,
    c.sentence.toList <:+ s.toList ↔ e.isFinished = true ∧ c.Holds root
  /-- Apart from the heading that it quotes, the summary holds the words exactly
      when the check finished the exercise. -/
  outside : ∃ label rest, e.table.label r.column = .ok label ∧ s = e.opening r ++ label ++ rest ∧
    (Announces (e.opening r).toList ∨ Announces rest.toList ↔ e.isFinished = true)
  /-- The heading does not hold them unless a name does. -/
  whole : (∀ name ∈ root.leafNames, ¬ Announces name.toList) →
    (Announces s.toList ↔ e.isFinished = true)

/-- The summary of a report that a check returns says what the formula is if the
    check finished the exercise, and only then. -/
theorem Orderly.reveals_of_check {e e' : Exercise} {r : Report} (h : e.Orderly)
    (hcheck : e.check = .ok (some r, e')) :
    ∃ s, e'.summarize r = .ok s ∧ Reveals e.loaded.root e' r s := by
  have htable : e'.table = e.table := after_check hcheck ▸ h.table_run [.check]
  have hfinished := h.isFinished_check_iff hcheck
  rw [← htable] at hfinished
  have hannounces := (announces_closing_iff e' r).trans hfinished.symm
  obtain ⟨col, hcol, hlabel⟩ := h.label_of_check hcheck
  rw [← htable] at hlabel
  refine ⟨_, summarize_eq hlabel, ?_, ⟨_, _, hlabel, rfl, ?_⟩, ?_⟩
  · intro c
    rw [← String.append_assoc, String.toList_append, sentence_suffix_iff, ← hfinished,
      htable.trans h.table_eq, Table.classify_filled_iff]
  · exact (or_iff_right (not_announces_opening e' r)).trans hannounces
  · intro hnames
    refine (announces_summary_iff e' r ?_).trans hannounces
    intro hheading
    obtain ⟨name, hn, hname⟩ := Formula.exists_name_of_announces hheading
    exact hnames name (Formula.leafNames_subset hcol name hn) hname

/-- No column of a new exercise is completed. -/
theorem completed_start {loaded : Loaded} {e : Exercise} (h : start loaded = .ok e) :
    e.completed = 0 := by
  rw [start, Table.ofFormula_eq_filled] at h
  cases h
  rw [completed, List.count_replicate]
  rfl

-- a wrong column, the same one put right, and nothing left to check
example :
    (start (.ofFormula (.neg (.atom "P" none) none))).map (fun e =>
      e.reports [.set 0 0 (.truth true), .check, .toggle 0 0, .set 0 1 (.truth true), .check,
        .check]) =
      .ok [⟨0, [.incorrect, .missing]⟩, ⟨0, [.correct, .correct]⟩] := by
  rfl

end Exercise

end TruthTables
