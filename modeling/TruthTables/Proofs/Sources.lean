import TruthTables.Proofs.Arguments
import TruthTables.Proofs.Exits

/-!
# Sources — a formula is shown alike wherever it comes from

    A run finds its text in one of three places, and looks at the place no more
    once it has the text (`runText_withSource`).  So a file and a command line
    that hold the same text lead to the same run, record for record; and a drawn
    question leads to the run over its text, with one detail told in front.

    **Main result** (`sources_agree`), for runs, for what they write, and for the
    command lines that ask for them.
-/

namespace TruthTables.Command

variable {s : Surroundings} {o o' : Options} {text : String}

-- ── What a run does with its text ─────────────────────────────────────────

/-- The options ask for a formula to be shown in the same way. -/
structure ShownAlike (o o' : Options) : Prop where
  ascii : o.ascii = o'.ascii
  checkOnly : o.checkOnly = o'.checkOnly
  verbose : o.verbose = o'.verbose
  debug : o.debug = o'.debug

/-- What is shown of a text does not depend on where it was found. -/
theorem ShownAlike.runText_eq (h : ShownAlike o o') (text : String) :
    runText o text = runText o' text := by
  simp only [runText, showLoaded, showTable, heading, h.ascii, h.checkOnly, h.verbose]

theorem ShownAlike.run_eq (h : ShownAlike o o') (hfound : findText s o = findText s o') :
    run s o = run s o' := by
  unfold run
  rw [hfound]
  simp only [h.runText_eq]

theorem ShownAlike.run_eq_after (h : ShownAlike o o') {told : List Record}
    (hfound : findText s o = (told, .ok text)) (hfound' : findText s o' = ([], .ok text)) :
    run s o = (run s o').after told := by
  rw [run, run, hfound, hfound']
  dsimp only
  rw [h.runText_eq]
  rfl

theorem ShownAlike.written_eq (h : ShownAlike o o') (hrun : run s o = run s o') :
    written s o = written s o' := by
  rw [written, written, threshold, threshold, h.debug, h.verbose, hrun]

/-- Without details nothing is written of what is told of a question. -/
theorem ShownAlike.written_eq_of_after (h : ShownAlike o o') {q : Question}
    (hv : o.verbose = false) (hd : o.debug = false)
    (hrun : run s o = (run s o').after (Narration.question q)) : written s o = written s o' := by
  have hnothing : withoutDebug (Narration.question q) = [] :=
    withoutDebug_eq_nil fun _ => level_of_question
  rw [written_of_plain hd hv, written_of_plain (h.debug ▸ hd) (h.verbose ▸ hv), hrun]
  simp only [Outcome.after, withoutDebug_append, hnothing, List.nil_append]

-- ── The three sources ─────────────────────────────────────────────────────

/-- A text is found in a file as it is found on the command line, unless a question
    is drawn and neither is looked at. -/
theorem findText_file_eq_given {path : String} (h : readFile s path = .ok text)
    (hne : text ≠ "") :
    findText s { o with file := some (some path) } =
      findText s { o with file := none, formula := some text } := by
  cases o.random with
  | true => simp only [findText, if_true]
  | false => simp only [findText, Bool.false_eq_true, if_false, h, hne]

theorem text_questionOfSeed_ne (seed : Int) : (questionOfSeed seed).text ≠ "" := by
  intro hempty
  have hread := ofText_questionOfSeed seed
  rw [hempty] at hread
  cases hread

/-- A run that draws a question is the run over its text, after what is told of
    the question. -/
theorem run_drawn_eq_after (hr : o.random = false) (seed : Int) :
    run s { o with random := true, seed := some (some seed) } =
      (run s { o with file := none, formula := some (questionOfSeed seed).text }).after
        (Narration.question (questionOfSeed seed)) := by
  have hgiven : findText s { o with file := none, formula := some (questionOfSeed seed).text } =
      ([], .ok (questionOfSeed seed).text) := by
    simp only [findText, hr, Bool.false_eq_true, if_false, text_questionOfSeed_ne]
  have halike : ShownAlike { o with random := true, seed := some (some seed) }
      { o with file := none, formula := some (questionOfSeed seed).text } := ⟨rfl, rfl, rfl, rfl⟩
  exact halike.run_eq_after (findText_of_seed rfl rfl) hgiven

/-- **The sources agree.**  A run over a file that holds a text is the run over the
    given text, whatever else is asked for.  A run that draws the question for a
    seed tells of the question first and is the run over its text then; a run
    that is asked for no details writes nothing of the former.

    Each source can be put behind any arguments that name no formula, and the
    options are otherwise what these arguments come to. -/
theorem sources_agree (s : Surroundings) :
    (∀ (o : Options) (path : String) (cs : List Char),
      s.openFile (plainPath path) = .ok (Utf8.encode cs) →
      Text.strip (Text.unifyLineEnds cs) ≠ [] →
      let text := String.ofList (Text.strip (Text.unifyLineEnds cs))
      let inFile : Options := { o with file := some (some path) }
      let given : Options := { o with file := none, formula := some text }
      run s inFile = run s given ∧ written s inFile = written s given) ∧
    (∀ (o : Options) (seed : Int), o.random = false →
      let q := questionOfSeed seed
      let drawn : Options := { o with random := true, seed := some (some seed) }
      let given : Options := { o with file := none, formula := some q.text }
      run s drawn = (run s given).after (Narration.question q) ∧
      (run s drawn).exit = (run s given).exit ∧
      (o.verbose = false → o.debug = false → written s drawn = written s given)) ∧
    ∀ (args : List String) (o : Options), "--" ∉ args → Options.ofArguments args = .ok o →
      o.formula = none →
      (∀ path, path ≠ "--" → Options.ofArguments (args ++ ["--file=" ++ path]) =
        .ok { o with file := some (some path) }) ∧
      (∀ text, Options.ofArguments (args ++ ["--", text]) = .ok { o with formula := some text }) ∧
      (∀ text : String, text.toList.head? ≠ some '-' →
        Options.ofArguments (args ++ [text]) = .ok { o with formula := some text }) ∧
      ∀ value seed, Text.integer? value = some seed →
        Options.ofArguments (args ++ ["--random", "--seed=" ++ value]) =
          .ok { o with random := true, seed := some (some seed) } := by
  refine ⟨?_, ?_, ?_⟩
  · intro o path cs hopen hne text inFile given
    have hread : readFile s path = .ok text := readFile_eq_ok_iff.mpr ⟨cs, hopen, hne, rfl⟩
    have halike : ShownAlike inFile given := ⟨rfl, rfl, rfl, rfl⟩
    have hrun : run s inFile = run s given :=
      halike.run_eq (findText_file_eq_given hread fun h => hne (String.ofList_injective h))
    exact ⟨hrun, halike.written_eq hrun⟩
  · intro o seed hr q drawn given
    have halike : ShownAlike drawn given := ⟨rfl, rfl, rfl, rfl⟩
    have hrun : run s drawn = (run s given).after (Narration.question q) :=
      run_drawn_eq_after hr seed
    refine ⟨hrun, ?_, fun hv hd => halike.written_eq_of_after hv hd hrun⟩
    rw [hrun, Outcome.after]
  · intro args o hdash hargs hformula
    have hon := Options.ofArguments_append hdash hargs hformula
    refine ⟨fun path hpath => ?_, fun text => ?_, fun text hdash => ?_,
      fun value seed hvalue => ?_⟩
    · rw [hon, Options.readOn_file o hpath]
    · rw [hon, Options.readOn_formula]
    · rw [hon, Options.readOn_plain o hdash]
    · rw [hon, Options.readOn_seed o hvalue]

/-- A file that ends its line and begins with a blank outside ASCII, and a question
    of which no detail is told. -/
theorem sources_agree_and_seven :
    let s : Surroundings := ⟨fun _ => .ok (Utf8.encode "\u00A0P & Q\r\n".toList), 0⟩
    (∃ inFile given, Options.ofArguments ["-v", "--file=f.txt"] = .ok inFile ∧
      Options.ofArguments ["-v", "P & Q"] = .ok given ∧
      run s inFile = run s given ∧ written s inFile = written s given) ∧
    ∃ drawn given, Options.ofArguments ["--ascii", "--random", "--seed=7"] = .ok drawn ∧
      Options.ofArguments ["--ascii", "--", (questionOfSeed 7).text] = .ok given ∧
      (run s drawn).exit = (run s given).exit ∧ written s drawn = written s given := by
  intro s
  obtain ⟨hfile, hdrawn, hargs⟩ := sources_agree s
  have hstrip : Text.strip (Text.unifyLineEnds "\u00A0P & Q\r\n".toList) = "P & Q".toList := by
    decide
  constructor
  · have hverbose : Options.ofArguments ["-v"] = .ok { verbose := true } := by decide +kernel
    obtain ⟨hpath, -, htext, -⟩ := hargs ["-v"] _ (by decide) hverbose rfl
    have hagree := hfile { verbose := true } "f.txt" _ rfl (by rw [hstrip]; decide)
    rw [hstrip, String.ofList_toList] at hagree
    exact ⟨_, _, hpath "f.txt" (by decide), htext "P & Q" (by decide), hagree⟩
  · have hascii : Options.ofArguments ["--ascii"] = .ok { ascii := true } := by decide +kernel
    obtain ⟨-, htext, -, hseed⟩ := hargs ["--ascii"] _ (by decide) hascii rfl
    obtain ⟨-, hexit, hwritten⟩ := hdrawn { ascii := true } 7 rfl
    exact ⟨_, _, hseed "7" 7 (by decide), htext _, hexit, hwritten rfl rfl⟩

end TruthTables.Command
