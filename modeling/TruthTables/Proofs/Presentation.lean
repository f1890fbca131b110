import TruthTables.Proofs.Course
import TruthTables.Proofs.Layout

/-!
# Presentation — what the options for presentation change, and what they do not

    Four options say how a run is presented and not what it is about: the
    notation of the headings, whether only a check is wanted, and two that ask
    for details.  Runs that differ in these alone find the same text, load it
    alike and end alike; where one fails, the others fail with the same record.
    What is left to compare are the two places in which a run that has loaded its
    text looks at such an option (`run_of_loads`).

    A table in one notation or the other has the same cells: the notation comes
    in at the headings alone (`laidOut_lines`).

    **Main result** (`presented_alike`).  Each option on its own, over all texts
    and files.
-/

namespace TruthTables

-- ── Runs that differ in their presentation ────────────────────────────────

namespace Command

variable {s : Surroundings} {o o' : Options} {text : String} {l : Loaded}

/-- Options that differ at most in how the run is presented. -/
structure SameSource (o o' : Options) : Prop where
  formula : o'.formula = o.formula
  file : o'.file = o.file
  random : o'.random = o.random
  seed : o'.seed = o.seed

theorem SameSource.refl (o : Options) : SameSource o o := ⟨rfl, rfl, rfl, rfl⟩

/-- The run is about the text, and the text is loaded. -/
def Loads (s : Surroundings) (o : Options) (text : String) (l : Loaded) : Prop :=
  Sourced s o text ∧ Loaded.ofText text = .ok l

theorem SameSource.findText_eq (h : SameSource o o') : findText s o' = findText s o := by
  rw [findText, findText, h.formula, h.file, h.random, h.seed]

theorem loads_or_not (s : Surroundings) (o : Options) :
    (∃ text l, Loads s o text l) ∨ ∀ text l, ¬ Loads s o text l := by
  by_cases h : ∃ text l, Loads s o text l
  · exact .inl h
  · exact .inr fun text l hl => h ⟨text, l, hl⟩

/-- A run that loads no text never looks at its presentation. -/
theorem run_of_not_loads (hnone : ∀ text l, ¬ Loads s o text l) (ho : SameSource o o') :
    run s o' = run s o := by
  cases hfound : (findText s o).2 with
  | error e => rw [run_of_failed hfound, run_of_failed (ho.findText_eq ▸ hfound)]
  | ok text =>
      cases hf : Formula.ofText text with
      | error e =>
          rw [run_of_refused hfound hf, run_of_refused (ho.findText_eq ▸ hfound) hf,
            ho.findText_eq]
      | ok f =>
          have hl := Loaded.ofText_eq_ok_iff.mpr ⟨f, hf, rfl⟩
          exact absurd ⟨sourced_iff.mpr hfound, hl⟩ (hnone text _)

/-- Any other run looks at its presentation in two places. -/
theorem run_of_loads (h : Loads s o text l) (ho : SameSource o o') :
    run s o' = ⟨.success, (findText s o).1 ++ Narration.load text ++ greeting o' text ++
      verdict l ++ tableRecords o' l.root⟩ := by
  have hfound := sourced_iff.mp h.1
  rw [← ho.findText_eq] at hfound
  rw [run_of_loaded hfound h.2, ho.findText_eq]

theorem exit_of_sameSource (ho : SameSource o o') : (run s o').exit = (run s o).exit := by
  rcases loads_or_not s o with ⟨text, l, h⟩ | hnone
  · rw [run_of_loads h ho, run_of_loads h (.refl o)]
  · rw [run_of_not_loads hnone ho]

/-- A check writes what a whole run writes first. -/
theorem written_check_prefix (s : Surroundings) (o : Options) :
    written s { o with checkOnly := true } <+: written s { o with checkOnly := false } := by
  have hcheck : SameSource o { o with checkOnly := true } := ⟨rfl, rfl, rfl, rfl⟩
  have hwhole : SameSource o { o with checkOnly := false } := ⟨rfl, rfl, rfl, rfl⟩
  have hrecords : (run s { o with checkOnly := true }).records <+:
      (run s { o with checkOnly := false }).records := by
    rcases loads_or_not s o with ⟨text, l, h⟩ | hnone
    · rw [run_of_loads h hcheck, run_of_loads h hwhole]
      -- a check ends where the table would begin
      show _ ++ greeting o text ++ verdict l ++ [] <+: _ ++ greeting o text ++ verdict l ++ _
      rw [List.append_nil]
      exact List.prefix_append ..
    · have hsame := (run_of_not_loads hnone hcheck).trans (run_of_not_loads hnone hwhole).symm
      exact hsame ▸ List.prefix_rfl
  exact hrecords.filter _

/-- A run has the same records to tell whether it is asked for details or not. -/
theorem records_debug (s : Surroundings) (o : Options) (b : Bool) :
    (run s { o with debug := b }).records = (run s o).records := by
  have ho : SameSource o { o with debug := b } := ⟨rfl, rfl, rfl, rfl⟩
  rcases loads_or_not s o with ⟨text, l, h⟩ | hnone
  · rw [run_of_loads h ho, run_of_loads h (.refl o)]
    rfl
  · rw [run_of_not_loads hnone ho]

theorem withoutDebug_written_debug (s : Surroundings) (hv : o.verbose = false) :
    withoutDebug (written s { o with debug := true }) = written s { o with debug := false } := by
  rw [written_of_detailed (.inl rfl), written_of_plain (o := { o with debug := false }) rfl hv,
    records_debug s o true, records_debug s o false]

theorem written_debug_of_verbose (s : Surroundings) (hv : o.verbose = true) :
    written s { o with debug := true } = written s { o with debug := false } := by
  rw [written_of_detailed (.inl rfl),
    written_of_detailed (o := { o with debug := false }) (.inr hv),
    records_debug s o true, records_debug s o false]

/-- A verbose run greets a formula that it has loaded. -/
theorem written_verbose_of_loads (h : Loads s o text l) : ∃ front back,
    written s { o with verbose := true } =
      front ++ .info ("📋 Formula loaded: " ++ text) :: back ∧
    written s { o with verbose := false, debug := true } = front ++ back ∧
    written s { o with verbose := false, debug := false } = withoutDebug (front ++ back) := by
  let front := (findText s o).1 ++ Narration.load text
  have hquiet : ∀ b, (run s { o with verbose := false, debug := b }).records =
      front ++ (verdict l ++ tableRecords o l.root) := by
    intro b
    have ho : SameSource o { o with verbose := false, debug := b } := ⟨rfl, rfl, rfl, rfl⟩
    rw [run_of_loads h ho]
    show front ++ [] ++ verdict l ++ tableRecords o l.root = _
    rw [List.append_nil, List.append_assoc]
  refine ⟨front, verdict l ++ tableRecords o l.root, ?_, ?_, ?_⟩
  · have ho : SameSource o { o with verbose := true } := ⟨rfl, rfl, rfl, rfl⟩
    rw [written_of_detailed (.inr rfl), run_of_loads h ho]
    show front ++ [.info ("📋 Formula loaded: " ++ text)] ++ verdict l ++ tableRecords o l.root = _
    rw [List.append_assoc, List.append_assoc]
    rfl
  · rw [written_of_detailed (.inl rfl), hquiet]
  · rw [written_of_plain rfl rfl, hquiet]

theorem written_verbose_of_not_loads (hnone : ∀ text l, ¬ Loads s o text l) :
    written s { o with verbose := true } =
      written s { o with verbose := false, debug := true } := by
  have hverbose : SameSource o { o with verbose := true } := ⟨rfl, rfl, rfl, rfl⟩
  have hdebug : SameSource o { o with verbose := false, debug := true } := ⟨rfl, rfl, rfl, rfl⟩
  rw [written_of_detailed (.inr rfl), written_of_detailed (.inl rfl),
    run_of_not_loads hnone hverbose, run_of_not_loads hnone hdebug]

/-- Records of ordinary progress are always written. -/
theorem visible_of_info {rs : List Record} (h : ∀ r ∈ rs, r.level = .info) :
    Record.visible (threshold o) rs = rs := by
  refine List.filter_eq_self.mpr fun r hr => ?_
  rw [h r hr, threshold]
  split <;> rfl

/-- In either notation the lines of the table hold the same cells, and nothing else
    changes. -/
theorem written_ascii_of_loads (h : Loads s o text l) (hcheck : o.checkOnly = false) :
    ∃ t front, Table.ofFormula l.root = .ok t ∧ ∀ b, ∃ lines,
      t.LaidOut (t.headings (heading { o with ascii := b })) lines ∧
      written s { o with ascii := b } =
        front ++ lines.map .info ++ (Event.classification t.classify.headline).records := by
  have ho : ∀ b, SameSource o { o with ascii := b } := fun _ => ⟨rfl, rfl, rfl, rfl⟩
  let t := Table.filled l.root
  let before := (findText s o).1 ++ Narration.load text ++ greeting o text ++ verdict l ++
    Narration.table l.root ++ [.info ""]
  refine ⟨t, Record.visible (threshold o) before, Table.ofFormula_eq_filled l.root,
    fun b => ⟨t.lines (heading { o with ascii := b }), Table.laidOut_lines l.root _, ?_⟩⟩
  let shown := (t.lines (heading { o with ascii := b })).map Record.info ++
    (Event.classification t.classify.headline).records
  have hrecords : (run s { o with ascii := b }).records = before ++ shown := by
    rw [run_of_loads h (ho b)]
    simp only [tableRecords, hcheck, before, shown, List.append_assoc]
    rfl
  have hshown : Record.visible (threshold o) shown = shown := by
    refine visible_of_info fun r hr => ?_
    rcases List.mem_append.mp hr with hr | hr
    · obtain ⟨line, -, rfl⟩ := List.mem_map.mp hr
      rfl
    · rw [List.mem_singleton.mp hr]
      rfl
  show Record.visible (threshold o) (run s { o with ascii := b }).records = _
  rw [hrecords, Record.visible, List.filter_append, List.append_assoc]
  exact congrArg (_ ++ ·) hshown

theorem written_ascii_of_no_table (h : o.checkOnly = true ∨ ∀ text l, ¬ Loads s o text l)
    (b : Bool) : written s { o with ascii := b } = written s o := by
  have ho : SameSource o { o with ascii := b } := ⟨rfl, rfl, rfl, rfl⟩
  have hrecords : (run s { o with ascii := b }).records = (run s o).records := by
    rcases loads_or_not s o with ⟨text, l, hl⟩ | hnone
    · have hcheck : o.checkOnly = true := h.resolve_right fun hnone => hnone text l hl
      rw [run_of_loads hl ho, run_of_loads hl (.refl o)]
      simp only [tableRecords, hcheck]
      rfl
    · rw [run_of_not_loads hnone ho]
  exact congrArg (Record.visible (threshold o)) hrecords

/-- **What the presentation changes.**

    Runs that differ in their presentation alone end alike, and a check writes what a
    whole run writes first.

    A run that is not verbose writes the same with details and without, the details
    apart, and a verbose run writes the details in any case.  Being verbose adds to
    the details one record, if the formula is loaded.

    The notation changes the headings of the table, the line that separates, and the
    blanks around the cells; without a table it changes nothing. -/
theorem presented_alike (s : Surroundings) (o : Options) :
    (∀ o', SameSource o o' → (run s o').exit = (run s o).exit) ∧
    written s { o with checkOnly := true } <+: written s { o with checkOnly := false } ∧
    (o.verbose = false →
      withoutDebug (written s { o with debug := true }) = written s { o with debug := false }) ∧
    (o.verbose = true →
      written s { o with debug := true } = written s { o with debug := false }) ∧
    (∀ text l, Loads s o text l → ∃ front back,
      written s { o with verbose := true } =
        front ++ .info ("📋 Formula loaded: " ++ text) :: back ∧
      written s { o with verbose := false, debug := true } = front ++ back ∧
      written s { o with verbose := false, debug := false } = withoutDebug (front ++ back)) ∧
    ((∀ text l, ¬ Loads s o text l) →
      written s { o with verbose := true } =
        written s { o with verbose := false, debug := true }) ∧
    (∀ text l, Loads s o text l → o.checkOnly = false →
      ∃ t front, Table.ofFormula l.root = .ok t ∧ ∀ b, ∃ lines,
        t.LaidOut (t.headings (heading { o with ascii := b })) lines ∧
        written s { o with ascii := b } =
          front ++ lines.map .info ++ (Event.classification t.classify.headline).records) ∧
    ((o.checkOnly = true ∨ ∀ text l, ¬ Loads s o text l) →
      ∀ b, written s { o with ascii := b } = written s o) :=
  ⟨fun _ h => exit_of_sameSource h, written_check_prefix s o, withoutDebug_written_debug s,
    written_debug_of_verbose s, fun _ _ h => written_verbose_of_loads h,
    written_verbose_of_not_loads, fun _ _ h => written_ascii_of_loads h,
    written_ascii_of_no_table⟩

/-- A verbose run shows the details by itself, so taking them away from one that is
    asked for them as well does not give the run that is not. -/
theorem withoutDebug_written_verbose_ne :
    let s : Surroundings := ⟨fun _ => .error .absent, 0⟩
    let o : Options := { formula := some "P", verbose := true }
    Options.ofArguments ["P", "-v"] = .ok o ∧
      Options.ofArguments ["P", "-v", "--debug"] = .ok { o with debug := true } ∧
      withoutDebug (written s { o with debug := true }) ≠ written s o := by
  intro s o
  refine ⟨by decide +kernel, by decide +kernel, fun h => ?_⟩
  have hread : Record.debug ("Parsing formula: " ++ "P") ∈ Narration.load "P" :=
    List.mem_append_left _ (List.mem_cons_self ..)
  have hdetail : Record.debug ("Parsing formula: " ++ "P") ∈ written s o := by
    rw [written_of_detailed (.inr rfl)]
    exact List.mem_append_right [] (List.mem_append_left _ hread)
  rw [← h] at hdetail
  exact absurd (List.mem_filter.mp hdetail).2 (by decide)

end Command

end TruthTables
