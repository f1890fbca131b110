import TruthTables.Command.Run
import TruthTables.Proofs.Cutting
import TruthTables.Proofs.Encoding
import TruthTables.Proofs.Strictness
import TruthTables.Proofs.Truth

/-!
# The course of a run — where its text comes from, and what it tells

    A run goes through three stages: it finds a text, loads it, and shows the
    formula.  Each may end it.  `Sourced` says which text a run is about, by what
    the options name and what is found there, and a text is found exactly when
    the run is about it (`sourced_iff`).  `Lacking` says why there is none, if
    there is a file or nothing at the path that is named (`found_cases`).

    Everything that a run does follows from three equations: for a run without
    a text (`run_of_failed`), for one whose text is no formula
    (`run_of_refused`), and for one that shows a formula (`run_of_loaded`).
    Every formula has a table, so nothing can go wrong any more once a formula
    has been loaded.
-/

namespace TruthTables

theorem Loaded.ofText_of_refused {text : String} {e : ReadError}
    (h : Formula.ofText text = .error e) : ofText text = .error e := by
  rw [ofText, h]
  rfl

namespace Command

open Narration (load)

variable {s : Surroundings} {o : Options} {text : String}

-- ── The text of a run ─────────────────────────────────────────────────────

/-- The text that a run is about: that of a drawn question, that of a file, or
    the one that is given. -/
inductive Sourced (s : Surroundings) (o : Options) : String → Prop where
  | drawn {seed : Int} : o.random = true → o.seed.getD (some s.freshSeed) = some seed →
      Sourced s o (questionOfSeed seed).text
  | inFile {path : String} {cs : List Char} : o.random = false → o.file = some (some path) →
      s.openFile (plainPath path) = .ok (Utf8.encode cs) →
      Text.strip (Text.unifyLineEnds cs) ≠ [] →
      Sourced s o (String.ofList (Text.strip (Text.unifyLineEnds cs)))
  | given {text : String} : o.random = false → o.file = none → o.formula = some text →
      text ≠ "" → Sourced s o text

/-- Why there is no text: nothing is named, or nothing is found at the path, or
    something that is no text, or only blanks. -/
inductive Lacking (s : Surroundings) (o : Options) : SourceError → Prop where
  | noSource : o.random = false → o.file = none → o.formula = none ∨ o.formula = some "" →
      Lacking s o .noSource
  | absent {path : String} : o.random = false → o.file = some (some path) →
      s.openFile (plainPath path) = .error .absent →
      Lacking s o (.notOpened (plainPath path) .absent)
  | notText {path : String} {bytes : List UInt8} {e : Utf8.Malformed} : o.random = false →
      o.file = some (some path) → s.openFile (plainPath path) = .ok bytes →
      (∀ cs : List Char, bytes ≠ Utf8.encode cs) → Utf8.decode bytes = .error e →
      Lacking s o (.notText e)
  | blank {path : String} {cs : List Char} : o.random = false → o.file = some (some path) →
      s.openFile (plainPath path) = .ok (Utf8.encode cs) →
      (∀ c ∈ cs, Text.isBlank c = true) → Lacking s o .emptyFile

/-- The run draws a question, and the option for the seed has been left without
    a value. -/
def Seedless (o : Options) : Prop := o.random = true ∧ o.seed = some none

/-- Where the run needs a file, a path is given, and there is a file at the path
    or nothing. -/
def NamesFile (s : Surroundings) (o : Options) : Prop :=
  o.random = false → ∀ v, o.file = some v → ∃ path, v = some path ∧
    ((∃ bytes, s.openFile (plainPath path) = .ok bytes) ∨
      s.openFile (plainPath path) = .error .absent)

theorem fileText_encode (cs : List Char) : fileText (Utf8.encode cs) =
    if Text.strip (Text.unifyLineEnds cs) = [] then .error .emptyFile
    else .ok (String.ofList (Text.strip (Text.unifyLineEnds cs))) := by
  rw [fileText, Utf8.decode_eq_ok_iff.mpr rfl]
  rfl

theorem fileText_of_malformed {bytes : List UInt8} {e : Utf8.Malformed}
    (h : Utf8.decode bytes = .error e) : fileText bytes = .error (.notText e) := by
  rw [fileText, h]
  rfl

theorem readFile_of_ok {path : String} {bytes : List UInt8}
    (h : s.openFile (plainPath path) = .ok bytes) : readFile s path = fileText bytes := by
  show (do fileText (← (s.openFile (plainPath path)).mapError _)) = _
  rw [h]
  rfl

theorem readFile_of_error {path : String} {e : OpenError}
    (h : s.openFile (plainPath path) = .error e) :
    readFile s path = .error (.notOpened (plainPath path) e) := by
  show (do fileText (← (s.openFile (plainPath path)).mapError _)) = _
  rw [h]
  rfl

/-- A text comes from a file exactly when the file holds its encoding, up to line
    ends and blanks at both ends, and it is not empty. -/
theorem readFile_eq_ok_iff {path : String} : readFile s path = .ok text ↔
    ∃ cs : List Char, s.openFile (plainPath path) = .ok (Utf8.encode cs) ∧
      Text.strip (Text.unifyLineEnds cs) ≠ [] ∧
      String.ofList (Text.strip (Text.unifyLineEnds cs)) = text := by
  constructor
  · intro h
    cases ho : s.openFile (plainPath path) with
    | error e =>
        rw [readFile_of_error ho] at h
        cases h
    | ok bytes =>
        rw [readFile_of_ok ho] at h
        cases hd : Utf8.decode bytes with
        | error e =>
            rw [fileText_of_malformed hd] at h
            cases h
        | ok cs =>
            obtain rfl := Utf8.decode_eq_ok_iff.mp hd
            rw [fileText_encode] at h
            split at h
            · cases h
            · exact ⟨cs, rfl, ‹_›, Except.ok.inj h⟩
  · rintro ⟨cs, ho, hne, rfl⟩
    rw [readFile_of_ok ho, fileText_encode, if_neg hne]

theorem findText_of_seed (hr : o.random = true) {seed : Int}
    (hs : o.seed.getD (some s.freshSeed) = some seed) :
    findText s o = (Narration.question (questionOfSeed seed), .ok (questionOfSeed seed).text) := by
  rw [findText, hr, hs]
  rfl

theorem findText_of_file (hr : o.random = false) {path : String} (hf : o.file = some (some path)) :
    findText s o = ([], readFile s path) := by
  rw [findText, hr, hf]
  rfl

theorem findText_of_formula (hr : o.random = false) (hf : o.file = none)
    (ht : o.formula = some text) :
    findText s o = ([], if text = "" then .error .noSource else .ok text) := by
  rw [findText, hr, hf, ht]
  rfl

/-- A text is found exactly when the run is about it. -/
theorem sourced_iff : Sourced s o text ↔ (findText s o).2 = .ok text := by
  constructor
  · intro h
    cases h with
    | drawn hr hs => rw [findText_of_seed hr hs]
    | inFile hr hf ho hne =>
        rw [findText_of_file hr hf]
        exact readFile_eq_ok_iff.mpr ⟨_, ho, hne, rfl⟩
    | given hr hf ht hne => rw [findText_of_formula hr hf ht, if_neg hne]
  · intro h
    unfold findText at h
    cases hr : o.random with
    | true =>
        rw [hr, if_pos rfl] at h
        split at h
        · cases h
        · cases h
          exact .drawn hr ‹_›
    | false =>
        rw [hr, if_neg Bool.false_ne_true] at h
        split at h
        · cases h
        · obtain ⟨cs, ho, hne, rfl⟩ := readFile_eq_ok_iff.mp h
          exact .inFile hr ‹_› ho hne
        · dsimp only at h
          split at h
          · cases h
          · cases h
            exact .given hr ‹_› ‹_› ‹_›
        · cases h

theorem findText_of_seedless (h : Seedless o) : findText s o = ([], .error .noSeed) := by
  rw [findText, h.1, h.2]
  rfl

theorem findText_of_lacking {e : SourceError} (h : Lacking s o e) :
    findText s o = ([], .error e) := by
  cases h with
  | noSource hr hf ht =>
      rcases ht with ht | ht
      · rw [findText, hr, hf, ht]
        rfl
      · exact findText_of_formula hr hf ht
  | absent hr hf ho => rw [findText_of_file hr hf, readFile_of_error ho]
  | notText hr hf ho _ hd =>
      rw [findText_of_file hr hf, readFile_of_ok ho, fileText_of_malformed hd]
  | blank hr hf ho hblank =>
      have hstrip := Text.strip_eq_nil_iff.mpr (Text.unifyLineEnds_blank_iff.mpr hblank)
      rw [findText_of_file hr hf, readFile_of_ok ho, fileText_encode, if_pos hstrip]

/-- Nothing is told of a text that is not found. -/
theorem findText_of_failed {e : SourceError} (h : (findText s o).2 = .error e) :
    findText s o = ([], .error e) := by
  have htold : (findText s o).1 = [] := by
    unfold findText at h ⊢
    cases hr : o.random with
    | true =>
        rw [hr, if_pos rfl] at h
        rw [if_pos rfl]
        split at h
        · rfl
        · cases h
    | false =>
        rw [if_neg Bool.false_ne_true]
        split <;> rfl
  exact Prod.ext htold h

/-- With a file or nothing at the path, a run that has no text lacks it for one
    of the reasons, or has no seed to draw with. -/
theorem found_cases (hfile : NamesFile s o) :
    Seedless o ∨ (∃ e, Lacking s o e) ∨ ∃ text, Sourced s o text := by
  cases hr : o.random with
  | true =>
      cases hs : o.seed with
      | none => exact .inr (.inr ⟨_, .drawn hr (by rw [hs]; rfl)⟩)
      | some v =>
          cases v with
          | none => exact .inl ⟨hr, hs⟩
          | some seed => exact .inr (.inr ⟨_, .drawn hr (by rw [hs]; rfl)⟩)
  | false =>
      cases hf : o.file with
      | none =>
          cases ht : o.formula with
          | none => exact .inr (.inl ⟨_, .noSource hr hf (.inl ht)⟩)
          | some t =>
              by_cases hne : t = ""
              · exact .inr (.inl ⟨_, .noSource hr hf (.inr (hne ▸ ht))⟩)
              · exact .inr (.inr ⟨_, .given hr hf ht hne⟩)
      | some v =>
          obtain ⟨path, rfl, ⟨bytes, ho⟩ | ho⟩ := hfile hr v hf
          · cases hd : Utf8.decode bytes with
            | error e =>
                refine .inr (.inl ⟨_, .notText hr hf ho (fun cs hcs => ?_) hd⟩)
                rw [Utf8.decode_eq_ok_iff.mpr hcs] at hd
                cases hd
            | ok cs =>
                obtain rfl := Utf8.decode_eq_ok_iff.mp hd
                by_cases hne : Text.strip (Text.unifyLineEnds cs) = []
                · have hblank := Text.unifyLineEnds_blank_iff.mp (Text.strip_eq_nil_iff.mp hne)
                  exact .inr (.inl ⟨_, .blank hr hf ho hblank⟩)
                · exact .inr (.inr ⟨_, .inFile hr hf ho hne⟩)
          · exact .inr (.inl ⟨_, .absent hr hf ho⟩)

-- ── The outcome of a run ──────────────────────────────────────────────────

/-- What is told first of a loaded formula, if the run is verbose. -/
def greeting (o : Options) (text : String) : List Record :=
  if o.verbose then [.info ("📋 Formula loaded: " ++ text)] else []

/-- The canonical form, and whether the text was canonical. -/
def verdict (l : Loaded) : List Record :=
  [.info ("Canonical form: " ++ l.canonical),
    if l.warns then .warning grammarWarning else .info "✅ Formula is fully parenthesized"]

/-- The lines of the table and the classification, if more than a check is asked
    for. -/
def tableRecords (o : Options) (root : Formula) : List Record :=
  if o.checkOnly then []
  else
    Narration.table root ++
      (.info "" :: ((Table.filled root).lines (heading o)).map .info ++
        (Event.classification (Table.filled root).classify.headline).records)

theorem run_of_failed {e : SourceError} (h : (findText s o).2 = .error e) :
    run s o = .failed e.exit e.message := by
  rw [run, findText_of_failed h]
  rfl

theorem run_of_found (h : (findText s o).2 = .ok text) :
    run s o = (runText o text).after (findText s o).1 := by
  have hfound : findText s o = ((findText s o).1, .ok text) := Prod.ext rfl h
  rw [run, hfound]

theorem run_of_refused {e : ReadError} (h : (findText s o).2 = .ok text)
    (he : Formula.ofText text = .error e) :
    run s o = (Outcome.failed .badFormula e.message).after ((findText s o).1 ++ load text) := by
  rw [run_of_found h, runText, Loaded.ofText_of_refused he]
  simp only [Outcome.after, List.append_assoc]

/-- Every formula has a table, so nothing can go wrong any more once a formula
    has been loaded. -/
theorem run_of_loaded {l : Loaded} (h : (findText s o).2 = .ok text)
    (hl : Loaded.ofText text = .ok l) :
    run s o = ⟨.success, (findText s o).1 ++ load text ++ greeting o text ++ verdict l ++
      tableRecords o l.root⟩ := by
  have htable : (if o.checkOnly then ⟨.success, []⟩ else showTable o l.root) =
      (⟨.success, tableRecords o l.root⟩ : Outcome) := by
    unfold tableRecords
    split
    · rfl
    · rw [showTable, Table.ofFormula_eq_filled]
      simp only [Outcome.after, Event.records, ← List.map_eq_flatMap]
  rw [run_of_found h, runText, hl]
  dsimp only
  rw [showLoaded, htable]
  simp only [Outcome.after, greeting, verdict, List.append_assoc]

-- ── Levels ────────────────────────────────────────────────────────────────

/-- The records that are of use outside the search for a fault. -/
def withoutDebug (rs : List Record) : List Record := rs.filter fun r => r.level ≠ .debug

@[simp] theorem withoutDebug_append (rs rs' : List Record) :
    withoutDebug (rs ++ rs') = withoutDebug rs ++ withoutDebug rs' := List.filter_append ..

theorem withoutDebug_eq_nil {rs : List Record} (h : ∀ r ∈ rs, r.level = .debug) :
    withoutDebug rs = [] :=
  List.filter_eq_nil_iff.mpr fun r hr => by simp [h r hr]

theorem visible_debug (rs : List Record) : Record.visible .debug rs = rs :=
  List.filter_eq_self.mpr fun r _ => by cases h : r.level <;> rfl

theorem visible_info (rs : List Record) : Record.visible .info rs = withoutDebug rs :=
  List.filter_congr fun r _ => by cases h : r.level <;> rfl

/-- A run that is asked for details writes all its records, and any other run
    those that are no details. -/
theorem written_eq (s : Surroundings) (o : Options) : written s o =
    if o.debug = true ∨ o.verbose = true then (run s o).records
    else withoutDebug (run s o).records := by
  rw [written, threshold]
  by_cases h : o.debug = true ∨ o.verbose = true
  · rw [if_pos h, if_pos (by simpa using h), visible_debug]
  · rw [if_neg h, if_neg (by simpa using h), visible_info]

theorem written_of_detailed (h : o.debug = true ∨ o.verbose = true) :
    written s o = (run s o).records := by
  rw [written_eq, if_pos h]

theorem written_of_plain (hd : o.debug = false) (hv : o.verbose = false) :
    written s o = withoutDebug (run s o).records := by
  rw [written_eq, hd, hv, if_neg (by decide)]

theorem level_of_question {q : Question} {r : Record} (h : r ∈ Narration.question q) :
    r.level = .debug := by
  rw [List.mem_singleton.mp h]
  rfl

theorem level_of_found {r : Record} (h : r ∈ (findText s o).1) : r.level = .debug := by
  unfold findText at h
  split at h
  · split at h
    · cases h
    · exact level_of_question h
  · split at h <;> cases h

theorem level_of_read {r : Record} (h : r ∈ Narration.read text) : r.level = .debug := by
  unfold Narration.read at h
  rcases List.mem_cons.mp h with rfl | h
  · rfl
  split at h
  · rcases List.mem_cons.mp h with rfl | h
    · rfl
    · rw [List.mem_singleton.mp h]
      rfl
  · rw [List.mem_singleton.mp h]
    rfl
  · rw [List.mem_singleton.mp h]
    rfl

/-- Loading tells nothing but details of a text that is refused. -/
theorem level_of_refused {e : ReadError} (he : Formula.ofText text = .error e) {r : Record}
    (h : r ∈ load text) : r.level = .debug := by
  rw [load, Loaded.ofText_of_refused he, List.append_nil] at h
  exact level_of_read h

/-- Loading may warn of a text, and tells nothing but details otherwise. -/
theorem level_of_load {r : Record} (h : r ∈ load text) : r.level = .debug ∨ r.level = .warning := by
  rcases List.mem_append.mp h with h | h
  · exact .inl (level_of_read h)
  split at h
  · cases h
  rcases List.mem_append.mp h with h | h
  · rw [List.mem_singleton.mp h]
    exact .inl rfl
  · split at h
    · rw [List.mem_singleton.mp h]
      exact .inr rfl
    · cases h

theorem level_of_narrated {root : Formula} {r : Record} (h : r ∈ Narration.table root) :
    r.level = .debug := by
  rcases List.mem_append.mp h with h | h
  · unfold Narration.enumerate at h
    split at h
    · cases h
    · rw [List.mem_singleton.mp h]
      rfl
  · split at h
    · cases h
    · rw [List.mem_singleton.mp h]
      rfl

theorem level_of_greeting {r : Record} (h : r ∈ greeting o text) : r.level = .info := by
  unfold greeting at h
  split at h
  · rw [List.mem_singleton.mp h]
    rfl
  · cases h

theorem level_of_verdict {l : Loaded} {r : Record} (h : r ∈ verdict l) :
    r.level = .info ∨ r.level = .warning := by
  rcases List.mem_cons.mp h with rfl | h
  · exact .inl rfl
  rw [List.mem_singleton.mp h]
  split
  · exact .inr rfl
  · exact .inl rfl

theorem level_of_tableRecords {root : Formula} {r : Record} (h : r ∈ tableRecords o root) :
    r.level = .debug ∨ r.level = .info := by
  unfold tableRecords at h
  split at h
  · cases h
  rcases List.mem_append.mp h with h | h
  · exact .inl (level_of_narrated h)
  refine .inr ?_
  rcases List.mem_append.mp h with h | h
  · rcases List.mem_cons.mp h with rfl | h
    · rfl
    · obtain ⟨line, -, rfl⟩ := List.mem_map.mp h
      rfl
  · rw [List.mem_singleton.mp h]
    rfl

end Command

end TruthTables
