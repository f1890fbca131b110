import Mathlib.Data.List.Forall2
import TruthTables.Proofs.Columns
import TruthTables.Proofs.Cutting
import TruthTables.Proofs.Rows

/-!
# Layout — a table as lines of text, and the table that is read from them

    The lines of a table are put together from fields: the headings, and a row
    of letters for each assignment.  `LaidOut` says what the lines are while it
    leaves the padding open.

    The padding depends on the headings alone.  A field is as wide as its heading
    and at least one character wide, so headings and letters fit, and every line
    has the fields at the same places (`Aligned`).  Since a letter is no part of a
    separator and no blank, a line is cut into its fields at the separator, and
    the letters are what is left of the fields without blanks.

    **Main result** (`lines_legible`).  The lines of the table of a formula are
    aligned, whatever the headings are, and the rows can be read back from them.
-/

namespace TruthTables

-- ── Fields and cells ──────────────────────────────────────────────────────

theorem mem_intercalate {α : Type} {sep : List α} {a : α} :
    ∀ {xs : List (List α)}, a ∈ sep.intercalate xs → a ∈ sep ∨ ∃ x ∈ xs, a ∈ x
  | [], h => nomatch h
  | [x], h => .inr ⟨x, List.mem_singleton.mpr rfl, by simpa using h⟩
  | x :: y :: xs, h => by
      rw [List.intercalate_cons_cons] at h
      rcases List.mem_append.mp h with h | h
      · rcases List.mem_append.mp h with h | h
        · exact .inr ⟨x, List.mem_cons_self .., h⟩
        · exact .inl h
      · rcases mem_intercalate h with h | ⟨z, hz, h⟩
        · exact .inl h
        · exact .inr ⟨z, List.mem_cons_of_mem _ hz, h⟩

namespace Table

/-- A cell with blanks around it. -/
def Padded (field cell : String) : Prop :=
  ∃ left right : Nat,
    field.toList = List.replicate left ' ' ++ cell.toList ++ List.replicate right ' '

/-- A line with the given cells, each with blanks around it. -/
def Shows (line : String) (cells : List String) : Prop :=
  ∃ fields, line = " | ".intercalate fields ∧ List.Forall₂ Padded fields cells

/-- Lines that are a table with the given headings: the headings, a line that
    separates, and a line for each row with the values of that row. -/
def LaidOut (t : Table) (headings lines : List String) : Prop :=
  ∃ head separator body, lines = head :: separator :: body ∧ Shows head headings ∧
    (∀ c ∈ separator.toList, c = '-' ∨ c = '+') ∧
    List.Forall₂ Shows body (t.rows.zipIdx.map fun (row, r) => t.cells r row)

theorem padded_center (width : Nat) (cell : String) : Padded (center width cell) cell :=
  ⟨_, _, String.toList_ofList⟩

theorem forall₂_padded {widths : List Nat} :
    ∀ {cells : List String}, widths.length = cells.length →
      List.Forall₂ Padded (List.zipWith center widths cells) cells := by
  induction widths with
  | nil =>
      intro cells h
      rw [List.eq_nil_of_length_eq_zero h.symm]
      exact .nil
  | cons width widths ih =>
      intro cells h
      cases cells with
      | nil => cases h
      | cons cell cells => exact .cons (padded_center width cell) (ih (Nat.succ.inj h))

theorem shows_line {widths : List Nat} {cells : List String} (h : widths.length = cells.length) :
    Shows (line widths cells) cells :=
  ⟨_, rfl, forall₂_padded h⟩

theorem length_widths (t : Table) (heading : Formula → String) :
    (t.widths heading).length = (t.headings heading).length := List.length_map ..

/-- A row of the table of a formula has a cell for every heading. -/
theorem length_cells {root : Formula} {heading : Formula → String} {row : Assignment} {r : Nat}
    (h : row ∈ (filled root).rows) :
    ((filled root).widths heading).length = ((filled root).cells r row).length := by
  have hrow : row.length = (filled root).atoms.length := by
    have hkeys : row.keys = root.atoms := Assignment.keys_of_mem_rows h
    rw [← List.length_map Prod.fst]
    exact congrArg List.length hkeys
  rw [length_widths, headings, cells, List.length_append, List.length_append, List.length_map,
    List.length_map, List.length_map, hrow]
  show _ = _ + (root.subformulas.map _).length
  rw [List.length_map]
  rfl

theorem mem_rule {widths : List Nat} {c : Char} (h : c ∈ (rule widths).toList) :
    c = '-' ∨ c = '+' := by
  rw [rule, String.toList_intercalate, List.map_map] at h
  rcases mem_intercalate h with h | ⟨dashes, hdashes, h⟩
  · have hbetween : c = '-' ∨ c = '+' ∨ c = '-' ∨ c ∈ [] := by
      simpa only [List.mem_cons] using (show c ∈ ['-', '+', '-'] from h)
    rcases hbetween with h | h | h | h
    · exact .inl h
    · exact .inr h
    · exact .inl h
    · cases h
  · obtain ⟨width, -, rfl⟩ := List.mem_map.mp hdashes
    rw [Function.comp_apply, String.toList_ofList] at h
    exact .inl (List.eq_of_mem_replicate h)

theorem laidOut_lines (root : Formula) (heading : Formula → String) :
    (filled root).LaidOut ((filled root).headings heading) ((filled root).lines heading) := by
  refine ⟨_, _, _, rfl, shows_line (length_widths ..), fun c => mem_rule, ?_⟩
  rw [List.forall₂_map_left_iff, List.forall₂_map_right_iff, List.forall₂_same]
  rintro ⟨row, r⟩ hrow
  exact shows_line (length_cells (List.fst_mem_of_mem_zipIdx hrow))

-- ── Widths ────────────────────────────────────────────────────────────────

/-- A line whose fields have the given widths, and show the given cells. -/
def Aligned (widths : List Nat) (line : String) (cells : List String) : Prop :=
  ∃ fields, line = " | ".intercalate fields ∧ fields.map String.length = widths ∧
    List.Forall₂ Padded fields cells

/-- Cells that are no longer than their columns are wide. -/
abbrev Fit (cells : List String) (widths : List Nat) : Prop :=
  List.Forall₂ (fun cell width => cell.length ≤ width) cells widths

theorem length_center (width : Nat) (cell : String) :
    (center width cell).length = max width cell.length := by
  simp only [center, String.length_ofList, List.length_append, List.length_replicate,
    String.length_toList]
  split <;> omega

/-- Lines with fields of the same widths are equally long, whichever of two separators
    of one length they have. -/
theorem length_intercalate {sep sep' : String} (hsep : sep.length = sep'.length) :
    ∀ {xs ys : List String}, xs.map String.length = ys.map String.length →
      (sep.intercalate xs).length = (sep'.intercalate ys).length
  | [], [], _ => by rw [String.intercalate_nil, String.intercalate_nil]
  | [x], [y], h => by
      rw [String.intercalate_singleton, String.intercalate_singleton]
      exact (List.cons.inj h).1
  | x :: x' :: xs, y :: y' :: ys, h => by
      obtain ⟨hhead, htail⟩ := List.cons.inj h
      rw [String.intercalate_cons_cons, String.intercalate_cons_cons, String.length_append,
        String.length_append, String.length_append, String.length_append, hhead, hsep,
        length_intercalate hsep htail]
  | [], _ :: _, h | _ :: _, [], h => nomatch h
  | [_], _ :: _ :: _, h | _ :: _ :: _, [_], h => nomatch (List.cons.inj h).2

theorem map_length_center {cells : List String} {widths : List Nat} (h : Fit cells widths) :
    (List.zipWith center widths cells).map String.length = widths := by
  induction h with
  | nil => rfl
  | cons hle _ ih =>
      rw [List.zipWith_cons_cons, List.map_cons, ih, length_center, Nat.max_eq_left hle]

theorem aligned_line {cells : List String} {widths : List Nat} (h : Fit cells widths) :
    Aligned widths (line widths cells) cells :=
  ⟨_, rfl, map_length_center h, forall₂_padded h.length_eq.symm⟩

/-- A line is as long as the one under the headings. -/
theorem Aligned.length_eq {widths : List Nat} {line : String} {cells : List String}
    (h : Aligned widths line cells) : line.length = (rule widths).length := by
  obtain ⟨fields, rfl, hwidths, -⟩ := h
  have hsep : " | ".length = "-+-".length := by decide
  refine length_intercalate hsep ?_
  rw [hwidths, List.map_map]
  refine ((List.map_congr_left fun w _ => ?_).trans (List.map_id widths)).symm
  rw [Function.comp_apply, String.length_ofList, List.length_replicate]
  rfl

/-- Every heading fits its column. -/
theorem fit_headings (t : Table) (heading : Formula → String) :
    Fit (t.headings heading) (t.widths heading) := by
  rw [widths, Fit, List.forall₂_map_right_iff, List.forall₂_same]
  exact fun h _ => Nat.le_max_left ..

theorem length_letter (b : Bool) : (Assignment.letter b).length = 1 := by
  cases b <;> rfl

theorem letter_cases (b : Bool) : Assignment.letter b = "T" ∨ Assignment.letter b = "F" := by
  cases b
  · exact .inr rfl
  · exact .inl rfl

theorem exists_letter_of_mem_cells {t : Table} {r : Nat} {row : Assignment} {cell : String}
    (h : cell ∈ t.cells r row) : ∃ b, cell = Assignment.letter b := by
  rcases List.mem_append.mp h with h | h
  · obtain ⟨p, -, rfl⟩ := List.mem_map.mp h
    exact ⟨_, rfl⟩
  · obtain ⟨column, -, rfl⟩ := List.mem_map.mp h
    exact ⟨_, rfl⟩

/-- Single letters fit every column, since none is empty. -/
theorem fit_cells {root : Formula} {heading : Formula → String} {row : Assignment} {r : Nat}
    (h : row ∈ (filled root).rows) :
    Fit ((filled root).cells r row) ((filled root).widths heading) := by
  refine List.forall₂_iff_zip.mpr ⟨(length_cells h).symm, fun {cell width} hzip => ?_⟩
  obtain ⟨b, rfl⟩ := exists_letter_of_mem_cells (List.of_mem_zip hzip).1
  obtain ⟨label, -, rfl⟩ := List.mem_map.mp (List.of_mem_zip hzip).2
  rw [length_letter]
  exact Nat.le_max_right ..

-- ── Reading a line ────────────────────────────────────────────────────────

/-- What is left of a field without the blanks around its cell. -/
def unpadded (field : String) : String := String.ofList (Text.trimBoth (· = ' ') field.toList)

/-- A letter is one character, and neither a blank nor a bar. -/
theorem exists_toList_letter (b : Bool) :
    ∃ c, (Assignment.letter b).toList = [c] ∧ c ≠ ' ' ∧ c ≠ '|' := by
  cases b with
  | false => exact ⟨'F', rfl, by decide, by decide⟩
  | true => exact ⟨'T', rfl, by decide, by decide⟩

/-- A letter is found in its field, and the field has no part of a separator but
    blanks. -/
theorem Padded.letter {field : String} {b : Bool} (h : Padded field (Assignment.letter b)) :
    unpadded field = Assignment.letter b ∧ '|' ∉ field.toList := by
  obtain ⟨left, right, hfield⟩ := h
  obtain ⟨c, hletter, hspace, hbar⟩ := exists_toList_letter b
  have hblank : ∀ n, ∀ c ∈ List.replicate n ' ', decide (c = ' ') = true := fun n c hc =>
    decide_eq_true (List.eq_of_mem_replicate hc)
  have hno : ∀ n, '|' ∉ List.replicate n ' ' := fun n hc =>
    absurd (List.eq_of_mem_replicate hc) (by decide)
  have hkept : ∀ c', some c = some c' → decide (c' = ' ') = false := by
    rintro c' ⟨⟩
    exact decide_eq_false hspace
  rw [hletter] at hfield
  constructor
  · rw [unpadded, hfield,
      Text.trimBoth_append (hblank left) (hblank right) (List.cons_ne_nil c []) hkept hkept,
      ← hletter, String.ofList_toList]
  · rw [hfield, List.mem_append, List.mem_append]
    rintro ((h | h) | h)
    · exact hno left h
    · exact hbar (List.mem_singleton.mp h).symm
    · exact hno right h

theorem forall₂_letters {fields cells : List String} (h : List.Forall₂ Padded fields cells)
    (hcells : ∀ cell ∈ cells, ∃ b, cell = Assignment.letter b) :
    fields.map unpadded = cells ∧ ∀ field ∈ fields, '|' ∉ field.toList := by
  induction h with
  | nil => exact ⟨rfl, fun _ h => nomatch h⟩
  | cons hpadded _ ih =>
      obtain ⟨b, rfl⟩ := hcells _ (List.mem_cons_self ..)
      obtain ⟨hletter, hbar⟩ := hpadded.letter
      obtain ⟨hletters, hbars⟩ := ih fun x hx => hcells x (List.mem_cons_of_mem _ hx)
      exact ⟨by rw [List.map_cons, hletter, hletters], List.forall_mem_cons.mpr ⟨hbar, hbars⟩⟩

/-- A line of letters is cut into their fields. -/
theorem Aligned.map_unpadded_split {widths : List Nat} {line : String} {cells : List String}
    (h : Aligned widths line cells) (hne : cells ≠ [])
    (hcells : ∀ cell ∈ cells, ∃ b, cell = Assignment.letter b) :
    (Text.split " | " line).map unpadded = cells := by
  obtain ⟨fields, rfl, -, hpadded⟩ := h
  obtain ⟨hletters, hbars⟩ := forall₂_letters hpadded hcells
  have hfields : fields ≠ [] := by
    rintro rfl
    exact hne (List.forall₂_nil_left_iff.mp hpadded)
  have hsep : " | ".toList = [' '] ++ '|' :: [' '] := rfl
  rw [Text.split_intercalate hsep (by decide) hfields hbars, hletters]

/-- A line from which a row of the table can be read: it has one part for each atom and
    for each column, in their order, with the letter T where the value is true, and F
    where it is false. -/
structure Spells (t : Table) (r : Nat) (row : Assignment) (line : String) : Prop where
  parts : (Text.split " | " line).length = t.atoms.length + t.columns.length
  letters : ∀ part ∈ Text.split " | " line, unpadded part = "T" ∨ unpadded part = "F"
  values : ∃ (word : String) (values : List Bool), row.row t.atoms = .ok word ∧
    word.length = t.atoms.length ∧ values.length = t.columns.length ∧
    (∀ c, t.valueAt c r = values[c]?) ∧
    (Text.split " | " line).map unpadded =
      word.toList.map String.singleton ++ values.map fun b => if b then "T" else "F"

/-- Lines that are aligned, and from which the rows of the table can be read. -/
structure Legible (t : Table) (headings : List String) (widths : List Nat)
    (lines : List String) : Prop where
  count : lines.length = 2 + 2 ^ t.atoms.length
  even : ∃ length, ∀ line ∈ lines, line.length = length
  fit : Fit headings widths
  head : ∃ line, lines[0]? = some line ∧ Aligned widths line headings
  body : ∀ (r : Nat) (row : Assignment), t.rows[r]? = some row → ∃ line, lines[r + 2]? = some line ∧
    Aligned widths line (t.cells r row) ∧ t.Spells r row line

theorem cells_filled {root : Formula} {row : Assignment} {r : Nat}
    (hr : (filled root).rows[r]? = some row) :
    (filled root).cells r row =
      (root.atoms.map row.valuation).map Assignment.letter ++
        (root.subformulas.map fun g => g.truth row.valuation).map Assignment.letter := by
  have hrow : row.map (fun p => p.2.truthy) = root.atoms.map row.valuation :=
    Assignment.map_truthy_of_mem_rows (Ascending.nodup_ofList root.leafNames)
      (List.mem_of_getElem? hr)
  rw [cells, ← hrow, List.map_map]
  refine congrArg (_ ++ ·) ?_
  show (root.subformulas.map _).map _ = _
  rw [List.map_map, List.map_map]
  refine List.map_congr_left fun g _ => ?_
  show Assignment.letter ((((filled root).rows.map _)[r]?).getD false) = _
  rw [List.getElem?_map, hr]
  rfl

theorem valueAt_filled_eq {root : Formula} {row : Assignment} {c r : Nat}
    (hr : (filled root).rows[r]? = some row) :
    (filled root).valueAt c r = (root.subformulas.map fun g => g.truth row.valuation)[c]? := by
  rw [List.getElem?_map]
  cases hc : root.subformulas[c]? with
  | none =>
      have hvalues : (filled root).values[c]? = none := by
        show (root.subformulas.map _)[c]? = none
        rw [List.getElem?_map, hc]
        rfl
      rw [valueAt, hvalues]
      rfl
  | some g => exact valueAt_filled hc hr

/-- Every formula has a leaf, so no row is empty. -/
theorem atoms_ne_nil (f : Formula) : f.atoms ≠ [] := by
  obtain ⟨name, hname⟩ : ∃ name, name ∈ f.leafNames := by
    induction f with
    | atom name i => exact ⟨name, List.mem_singleton.mpr rfl⟩
    | neg g i ih => exact ih
    | bin op l r i ihl ihr =>
        obtain ⟨name, h⟩ := ihl
        exact ⟨name, List.mem_append.mpr (.inl h)⟩
  exact List.ne_nil_of_mem (Ascending.mem_ofList.mpr hname)

/-- An aligned line with the letters of a row is one that spells the row. -/
theorem spells_of_aligned {root : Formula} {row : Assignment} {r : Nat} {widths : List Nat}
    {line : String} (hr : (filled root).rows[r]? = some row)
    (h : Aligned widths line ((filled root).cells r row)) : (filled root).Spells r row line := by
  have hletters : ∀ cell ∈ (filled root).cells r row, ∃ b, cell = Assignment.letter b :=
    fun cell => exists_letter_of_mem_cells
  have hne : (filled root).cells r row ≠ [] := by
    rw [cells_filled hr]
    simp [atoms_ne_nil]
  have hsplit := h.map_unpadded_split hne hletters
  have hword : row.row root.atoms =
      .ok (String.join ((root.atoms.map row.valuation).map Assignment.letter)) := by
    rw [Assignment.row_of_covers (Assignment.covers_of_mem_rows (List.mem_of_getElem? hr)),
      List.map_map]
    rfl
  refine ⟨?_, ?_, _, _, hword, ?_, List.length_map .., fun c => valueAt_filled_eq hr, ?_⟩
  · have hlength := congrArg List.length hsplit
    rw [cells_filled hr, List.length_append] at hlength
    simp only [List.length_map] at hlength
    exact hlength
  · intro part hpart
    have hmem := List.mem_map_of_mem (f := unpadded) hpart
    rw [hsplit] at hmem
    obtain ⟨b, hb⟩ := hletters _ hmem
    rw [hb]
    exact letter_cases b
  · rw [← String.length_toList, Assignment.toList_join_letters, List.length_map, List.length_map]
    rfl
  · have hletter : Assignment.letter = fun b => if b then "T" else "F" := rfl
    rw [hsplit, cells_filled hr, Assignment.map_singleton_join_letters, ← hletter]
    rfl

/-- **The lines of a table are aligned, and its rows can be read back from them.**  Every
    formula has a table.  Whatever its headings are, in the one notation or in the other,
    the lines of the table have one length; every heading fits its column; and every row
    is spelt by its line, which has a part for each atom and each column, and in each part
    the letter of the value there. -/
theorem lines_legible (f : Formula) (heading : Formula → String) :
    ∃ t, ofFormula f = .ok t ∧ t.rows.length = 2 ^ t.atoms.length ∧
      t.Legible (t.headings heading) (t.widths heading) (t.lines heading) := by
  have hrows : (filled f).rows.length = 2 ^ (filled f).atoms.length := Assignment.length_rows _
  have hhead := aligned_line (fit_headings (filled f) heading)
  have hbody : ∀ {r : Nat} {row : Assignment}, (filled f).rows[r]? = some row →
      Aligned ((filled f).widths heading)
        (line ((filled f).widths heading) ((filled f).cells r row)) ((filled f).cells r row) :=
    fun hr => aligned_line (fit_cells (List.mem_of_getElem? hr))
  refine ⟨filled f, ofFormula_eq_filled f, hrows, ?_,
    ⟨(rule ((filled f).widths heading)).length, ?_⟩, fit_headings _ heading,
    ⟨_, rfl, hhead⟩, ?_⟩
  · rw [lines, List.length_cons, List.length_cons, List.length_map, List.length_zipIdx, hrows]
    omega
  · intro x hx
    rcases List.mem_cons.mp hx with rfl | hx
    · exact hhead.length_eq
    rcases List.mem_cons.mp hx with rfl | hx
    · rfl
    obtain ⟨⟨row, r⟩, hrow, rfl⟩ := List.mem_map.mp hx
    exact (hbody (List.mk_mem_zipIdx_iff_getElem?.mp hrow)).length_eq
  · intro r row hr
    refine ⟨_, ?_, hbody hr, spells_of_aligned hr (hbody hr)⟩
    show (((filled f).rows.zipIdx.map _)[r]?) = _
    rw [List.getElem?_map, List.getElem?_zipIdx, hr]
    simp

end Table

end TruthTables
