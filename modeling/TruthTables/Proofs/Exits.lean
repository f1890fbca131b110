import TruthTables.Proofs.Course
import TruthTables.Proofs.Generation

/-!
# Exits — how a run ends, and what a run that fails has told

    A run that asks for a file finds one or nothing at the path.  Then it can
    end in four ways: with a table or a check; because its text is no formula;
    because there is no text; and, when it is to draw a question and its option
    for a seed has been left without a value, because there is nothing to draw
    with.  `ComesTo` lists them, each with what leads to it, and `exit_iff`
    says that a run ends as it comes to.

    **Main result** (`exit_code_iff`).  The exit code tells the four ways apart,
    a run that fails has written one record, and a drawn question never fails.
-/

namespace TruthTables.Command

variable {s : Surroundings} {o : Options} {text : String}

/-- How a run ends, and what leads to it. -/
inductive ComesTo (s : Surroundings) (o : Options) : Exit → Prop where
  | seedless : Seedless o → ComesTo s o .failure
  | lacking {e : SourceError} : Lacking s o e → ComesTo s o .badInput
  | refused {text : String} {e : ReadError} : Sourced s o text →
      Formula.ofText text = .error e → ComesTo s o .badFormula
  | shown {text : String} {f : Formula} : Sourced s o text →
      Formula.ofText text = .ok f → ComesTo s o .success

theorem Lacking.random {e : SourceError} (h : Lacking s o e) : o.random = false := by
  cases h <;> assumption

theorem Lacking.exit {e : SourceError} (h : Lacking s o e) : e.exit = .badInput := by
  cases h <;> rfl

theorem run_of_seedless (h : Seedless o) :
    run s o = .failed .failure SourceError.noSeed.message :=
  run_of_failed (congrArg Prod.snd (findText_of_seedless h))

theorem run_of_lacking {e : SourceError} (h : Lacking s o e) :
    run s o = .failed .badInput e.message := by
  rw [run_of_failed (congrArg Prod.snd (findText_of_lacking h)), h.exit]

theorem exit_of_comesTo {x : Exit} (h : ComesTo s o x) : (run s o).exit = x := by
  cases h with
  | seedless h => rw [run_of_seedless h]; rfl
  | lacking h => rw [run_of_lacking h]; rfl
  | refused ht he => rw [run_of_refused (sourced_iff.mp ht) he]; rfl
  | @shown text f ht hf =>
      have hl : Loaded.ofText text = .ok ⟨f, f.unicode, f.departs text⟩ :=
        Loaded.ofText_eq_ok_iff.mpr ⟨f, hf, rfl⟩
      rw [run_of_loaded (sourced_iff.mp ht) hl]

/-- A run ends in one of the ways, so it ends in that way exactly when it comes
    to it. -/
theorem exit_iff (hfile : NamesFile s o) {x : Exit} : (run s o).exit = x ↔ ComesTo s o x := by
  refine ⟨?_, exit_of_comesTo⟩
  have hcomes : ∃ y, ComesTo s o y := by
    rcases found_cases hfile with h | ⟨e, h⟩ | ⟨text, h⟩
    · exact ⟨_, .seedless h⟩
    · exact ⟨_, .lacking h⟩
    · cases hf : Formula.ofText text with
      | error e => exact ⟨_, .refused h hf⟩
      | ok f => exact ⟨_, .shown h hf⟩
  obtain ⟨y, hy⟩ := hcomes
  rintro rfl
  rwa [exit_of_comesTo hy]

theorem Exit.code_eq_iff {x y : Exit} : x.code = y.code ↔ x = y := by
  constructor
  · intro h
    cases x <;> cases y <;> first | rfl | cases h
  · rintro rfl
    rfl

/-- The question for a seed is drawn from a twister.  The statement is one of
    functions: for a given seed the twister's words would be computed here. -/
theorem questionOfSeed_eq :
    questionOfSeed = fun seed => (Question.draw.run (Twister.ofSeed seed)).1 := rfl

/-- A drawn question is read as a formula. -/
theorem ofText_questionOfSeed (seed : Int) :
    Formula.ofText (questionOfSeed seed).text = .ok (questionOfSeed seed).formula := by
  rw [questionOfSeed_eq]
  exact Question.ofText_draw (Twister.ofSeed seed)

/-- A run that draws a question shows it, unless it has no seed. -/
theorem comesTo_of_random (hr : o.random = true) {x : Exit} (h : ComesTo s o x) :
    x = .success ∨ x = .failure := by
  cases h with
  | seedless => exact .inr rfl
  | lacking h => cases hr.symm.trans h.random
  | refused ht he =>
      cases ht with
      | drawn =>
          rw [ofText_questionOfSeed] at he
          cases he
      | inFile hr' => cases hr.symm.trans hr'
      | given hr' => cases hr.symm.trans hr'
  | shown => exact .inl rfl

-- ── What a run has written ────────────────────────────────────────────────

theorem written_of_failed {x : Exit} {message : String} (h : run s o = .failed x message) :
    written s o = [.error (Outcome.failed.lead x ++ message)] := by
  rw [written_eq, h]
  split <;> rfl

/-- Details apart, a text that is refused is told of in one record. -/
theorem written_of_refused {e : ReadError} (hv : o.verbose = false) (hd : o.debug = false)
    (ht : Sourced s o text) (he : Formula.ofText text = .error e) :
    written s o = [.error ("Formula error: " ++ e.message)] := by
  have hfound : withoutDebug (findText s o).1 = [] := withoutDebug_eq_nil fun _ => level_of_found
  have hload : withoutDebug (Narration.load text) = [] :=
    withoutDebug_eq_nil fun _ => level_of_refused he
  rw [written_of_plain hd hv, run_of_refused (sourced_iff.mp ht) he]
  simp only [Outcome.after, withoutDebug_append, hfound, hload]
  rfl

/-- A run that shows a formula writes of no failure. -/
theorem level_ne_error {f : Formula} (ht : Sourced s o text) (hf : Formula.ofText text = .ok f)
    {r : Record} (h : r ∈ written s o) : r.level ≠ .error := by
  have hr : r ∈ (run s o).records := (List.mem_filter.mp h).1
  rw [run_of_loaded (sourced_iff.mp ht) (Loaded.ofText_eq_ok_iff.mpr ⟨f, hf, rfl⟩)] at hr
  intro hlevel
  simp only [List.mem_append] at hr
  rcases hr with (((hr | hr) | hr) | hr) | hr
  · cases (level_of_found hr).symm.trans hlevel
  · rcases level_of_load hr with h | h <;> cases h.symm.trans hlevel
  · cases (level_of_greeting hr).symm.trans hlevel
  · rcases level_of_verdict hr with h | h <;> cases h.symm.trans hlevel
  · rcases level_of_tableRecords hr with h | h <;> cases h.symm.trans hlevel

/-- **How a run ends**, when there is a file or nothing at the path it names.

    The code is 5 for a run without a seed to draw with, 3 for one without a text,
    2 for one whose text is no formula, and 0 for one that shows a formula; there is
    no other.  A drawn question is always a formula.

    A run that is asked for no details writes one record if it fails, with the cause,
    and none of a failure if it shows a formula. -/
theorem exit_code_iff (s : Surroundings) (o : Options) (hfile : NamesFile s o) :
    ((run s o).exit.code = 5 ↔ Seedless o) ∧
    ((run s o).exit.code = 3 ↔ ∃ e, Lacking s o e) ∧
    ((run s o).exit.code = 3 ↔ ¬ Seedless o ∧ ∀ text, ¬ Sourced s o text) ∧
    ((run s o).exit.code = 2 ↔
      ∃ text e, Sourced s o text ∧ Formula.ofText text = .error e) ∧
    ((run s o).exit.code = 0 ↔ ∃ text f, Sourced s o text ∧ Formula.ofText text = .ok f) ∧
    (run s o).exit.code ∈ [0, 2, 3, 5] ∧
    (o.random = true → (run s o).exit.code ≠ 2 ∧ (run s o).exit.code ≠ 3) ∧
    (o.verbose = false → o.debug = false →
      (Seedless o →
        written s o = [.error ("Unexpected error: " ++ SourceError.noSeed.message)]) ∧
      (∀ e, Lacking s o e → written s o = [.error ("Input error: " ++ e.message)]) ∧
      (∀ text e, Sourced s o text → Formula.ofText text = .error e →
        written s o = [.error ("Formula error: " ++ e.message)]) ∧
      ((run s o).exit.code = 0 → ∀ r ∈ written s o, r.level ≠ .error)) := by
  have hcode : ∀ x : Exit, (run s o).exit.code = x.code ↔ ComesTo s o x := fun x =>
    Exit.code_eq_iff.trans (exit_iff hfile)
  have hlacking : (run s o).exit.code = 3 ↔ ∃ e, Lacking s o e := by
    refine (hcode .badInput).trans ⟨fun h => ?_, fun ⟨_, h⟩ => .lacking h⟩
    cases h with
    | lacking h => exact ⟨_, h⟩
  have hshown : (run s o).exit.code = 0 ↔
      ∃ text f, Sourced s o text ∧ Formula.ofText text = .ok f := by
    refine (hcode .success).trans ⟨fun h => ?_, fun ⟨_, _, ht, hf⟩ => .shown ht hf⟩
    cases h with
    | shown ht hf => exact ⟨_, _, ht, hf⟩
  refine ⟨?_, hlacking, ?_, ?_, hshown, ?_, ?_, ?_⟩
  · refine (hcode .failure).trans ⟨fun h => ?_, .seedless⟩
    cases h with
    | seedless h => exact h
  · rw [hlacking]
    constructor
    · rintro ⟨e, he⟩
      have hfound := findText_of_lacking he
      refine ⟨fun h => ?_, fun text ht => ?_⟩
      · cases hfound.symm.trans (findText_of_seedless h)
        cases he
      · have htext := sourced_iff.mp ht
        rw [hfound] at htext
        cases htext
    · rintro ⟨hseed, hnone⟩
      rcases found_cases hfile with h | h | ⟨text, ht⟩
      · exact absurd h hseed
      · exact h
      · exact absurd ht (hnone text)
  · refine (hcode .badFormula).trans ⟨fun h => ?_, fun ⟨_, _, ht, he⟩ => .refused ht he⟩
    cases h with
    | refused ht he => exact ⟨_, _, ht, he⟩
  · cases (run s o).exit <;> decide
  · intro hr
    have hends := comesTo_of_random hr ((exit_iff hfile).mp rfl)
    rcases hends with h | h <;> rw [h] <;> decide
  · intro hv hd
    refine ⟨fun h => written_of_failed (run_of_seedless h),
      fun e h => written_of_failed (run_of_lacking h),
      fun text e ht he => written_of_refused hv hd ht he, fun h r hr => ?_⟩
    obtain ⟨text, f, ht, hf⟩ := hshown.mp h
    exact level_ne_error ht hf hr

/-- A run over a file with a byte that begins no character. -/
theorem exit_code_of_malformed_file :
    let s : Surroundings := ⟨fun _ => .ok [0x50, 0xFF], 0⟩
    let o : Options := { file := some (some "f.txt") }
    NamesFile s o ∧ (run s o).exit.code = 3 ∧
      written s o = [.error ("Input error: " ++
        "'utf-8' codec can't decode byte 0xff in position 1: invalid start byte")] := by
  intro s o
  have hopen : s.openFile (plainPath "f.txt") = .ok [0x50, 0xFF] := rfl
  have hfile : NamesFile s o := fun _ v hv => ⟨"f.txt", (Option.some.inj hv).symm, .inl ⟨_, hopen⟩⟩
  have hdecode : Utf8.decode [0x50, 0xFF] = .error ⟨.badStart, 1, 1, 0xFF⟩ := by decide
  have hlacking : Lacking s o (.notText ⟨.badStart, 1, 1, 0xFF⟩) := by
    refine .notText rfl rfl hopen (fun cs hcs => ?_) hdecode
    rw [Utf8.decode_eq_ok_iff.mpr hcs] at hdecode
    cases hdecode
  obtain ⟨-, hcode, -, -, -, -, -, hwritten⟩ := exit_code_iff s o hfile
  exact ⟨hfile, hcode.mpr ⟨_, hlacking⟩, (hwritten rfl rfl).2.1 _ hlacking⟩

/-- An option for a seed may be left without a value, and a run that is to draw a
    question then ends like nothing else. -/
theorem exit_code_without_seed :
    Options.ofArguments ["--random", "--seed=--"] =
        .ok { random := true, seed := some none } ∧
      let s : Surroundings := ⟨fun _ => .error .absent, 0⟩
      let o : Options := { random := true, seed := some none }
      NamesFile s o ∧ (run s o).exit.code = 5 ∧
        written s o = [.error ("Unexpected error: " ++ SourceError.noSeed.message)] := by
  refine ⟨by decide +kernel, ?_⟩
  intro s o
  have hrun : run s o = .failed .failure SourceError.noSeed.message := run_of_seedless ⟨rfl, rfl⟩
  refine ⟨fun hr => absurd hr (by decide), ?_, written_of_failed hrun⟩
  rw [hrun]
  rfl

end TruthTables.Command
