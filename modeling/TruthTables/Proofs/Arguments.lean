import TruthTables.Command.Options

/-!
# Arguments — what is read of a command line stays when more is added

    A command line is read in two passes, and both go from left to right.  So
    what has been read of its front is still read when arguments are put behind
    it, except where the last words could belong to what follows: a formula
    takes a separator behind it along, and after a separator nothing is an
    option.  Without a formula and without a separator neither happens.

    `Step` says all that taking words once can do then, and `Taken` that words are
    taken so, to their end.  What a step takes, it takes in front of anything
    (`Step.take_append`).  So do all words that are taken without a formula
    (`Taken.take_append`): a formula that has been set stays set, so there was none
    on the way either.

    **Main result** (`Options.ofArguments_append`): options that are read with no
    formula are what the reading of further arguments starts with.
-/

namespace TruthTables.Command

-- ── Computations that succeed ─────────────────────────────────────────────

section

variable {ε ε' α β : Type} {x : Except ε α}

theorem exists_of_bind_eq_ok {k : α → Except ε β} {b : β} (h : (do k (← x)) = .ok b) :
    ∃ a, x = .ok a ∧ k a = .ok b := by
  cases x with
  | error e => cases h
  | ok a => exact ⟨a, rfl, h⟩

theorem eq_ok_of_mapError {f : ε → ε'} {a : α} (h : x.mapError f = .ok a) : x = .ok a := by
  cases x with
  | error e => cases h
  | ok a' => exact congrArg Except.ok (Except.ok.inj h)

end

-- ── Taking words one after another ────────────────────────────────────────

/-- An option is taken apart first, and then its switches are turned on and its
    value is set. -/
theorem take_option (p : Progress) (f : Flag) (isLong : Bool) (attached : Option (List Char))
    (ws : List Word) :
    take p (.option f isLong attached :: ws) = (do
      let joined ← (Joined.ofOption f isLong attached).mapError .refused
      match joined.valued, ws with
      | none, ws => take { p with options := (← p.options.switchAllOn joined.switches) } ws
      | some (g, some text), ws =>
          let o ← p.options.switchAllOn joined.switches
          take { p with options := (← o.setAttached g text) } ws
      | some (g, none), .plain text :: ws =>
          let o ← p.options.switchAllOn joined.switches
          take { p with options := (← o.setValue g (some text)) } ws
      | some (g, none), _ => .error (.refused (.noValue g))) := by
  delta take
  show Except.bind ((Joined.ofOption f isLong attached).mapError Stop.refused) _ = Except.bind _ _
  generalize Joined.ofOption f isLong attached = r
  -- how far the definition unfolds depends on what it matches on
  match r, ws with
  | .error _, _ => rfl
  | .ok ⟨_, none⟩, _ => rfl
  | .ok ⟨_, some (_, some _)⟩, _ => rfl
  | .ok ⟨_, some (_, none)⟩, [] => rfl
  | .ok ⟨_, some (_, none)⟩, .separator :: _ => rfl
  | .ok ⟨_, some (_, none)⟩, .plain _ :: _ => rfl
  | .ok ⟨_, some (_, none)⟩, .unknown _ :: _ => rfl
  | .ok ⟨_, some (_, none)⟩, .option .. :: _ => rfl

theorem take_unknown (p : Progress) (text : String) (ws : List Word) :
    take p (.unknown text :: ws) = take (p.leave text) ws := by
  delta take
  rfl

/-- The first word that is no option is the formula, and takes no word along but a
    separator. -/
theorem take_plain (p : Progress) (text : String) {ws : List Word} (hsep : .separator ∉ ws) :
    take p (.plain text :: ws) =
      if p.placeTaken then take (p.leave text) ws
      else take { p with placeTaken := true, options.formula := some text } ws := by
  match ws with
  | .separator :: _ => exact absurd (List.mem_cons_self ..) hsep
  | [] | .plain _ :: _ | .unknown _ :: _ | .option .. :: _ =>
      delta take
      rfl

/-- All that taking words once can do as long as none of them is the formula or a
    separator: the words that are taken, and how far the reading has come then. -/
inductive Step (p : Progress) : List Word → Progress → Prop where
  | switches {f : Flag} {isLong : Bool} {attached : Option (List Char)} {fs : List Flag}
      {o : Options} :
      Joined.ofOption f isLong attached = .ok ⟨fs, none⟩ → p.options.switchAllOn fs = .ok o →
      Step p [.option f isLong attached] { p with options := o }
  | attached {f g : Flag} {isLong : Bool} {attached : Option (List Char)} {text : String}
      {fs : List Flag} {o o' : Options} :
      Joined.ofOption f isLong attached = .ok ⟨fs, some (g, some text)⟩ →
      p.options.switchAllOn fs = .ok o → o.setAttached g text = .ok o' →
      Step p [.option f isLong attached] { p with options := o' }
  | value {f g : Flag} {isLong : Bool} {attached : Option (List Char)} {text : String}
      {fs : List Flag} {o o' : Options} :
      Joined.ofOption f isLong attached = .ok ⟨fs, some (g, none)⟩ →
      p.options.switchAllOn fs = .ok o → o.setValue g (some text) = .ok o' →
      Step p [.option f isLong attached, .plain text] { p with options := o' }
  | unknown (text : String) : Step p [.unknown text] (p.leave text)

/-- What is taken is taken in front of any words. -/
theorem Step.take_append {p p' : Progress} {taken : List Word} (h : Step p taken p')
    (ws : List Word) : take p (taken ++ ws) = take p' ws := by
  cases h with
  | switches hjoined hon =>
      rw [List.singleton_append, take_option, hjoined]
      show (p.options.switchAllOn _).bind _ = _
      rw [hon]
      rfl
  | attached hjoined hon hset =>
      rw [List.singleton_append, take_option, hjoined]
      show (p.options.switchAllOn _).bind (fun o => (o.setAttached _ _).bind _) = _
      rw [hon]
      show (Options.setAttached _ _ _).bind _ = _
      rw [hset]
      rfl
  | value hjoined hon hset =>
      rw [List.cons_append, List.singleton_append, take_option, hjoined]
      show (p.options.switchAllOn _).bind (fun o => (o.setValue _ _).bind _) = _
      rw [hon]
      show (Options.setValue _ _ _).bind _ = _
      rw [hset]
      rfl
  | unknown text => exact take_unknown p text ws

/-- An option is taken by itself or with the word behind it as its value. -/
theorem step_of_option {p q : Progress} {f : Flag} {isLong : Bool}
    {attached : Option (List Char)} {ws : List Word}
    (h : take p (.option f isLong attached :: ws) = .ok q) :
    ∃ taken rest p', .option f isLong attached :: ws = taken ++ rest ∧ Step p taken p' ∧
      take p' rest = .ok q := by
  rw [take_option] at h
  obtain ⟨⟨fs, valued⟩, hjoined, h⟩ := exists_of_bind_eq_ok h
  have hjoined := eq_ok_of_mapError hjoined
  cases valued with
  | none =>
      obtain ⟨o, hon, h⟩ := exists_of_bind_eq_ok h
      exact ⟨_, ws, _, rfl, .switches hjoined hon, h⟩
  | some given =>
      obtain ⟨g, attachedText⟩ := given
      cases attachedText with
      | some text =>
          obtain ⟨o, hon, h⟩ := exists_of_bind_eq_ok h
          obtain ⟨o', hset, h⟩ := exists_of_bind_eq_ok h
          exact ⟨_, ws, _, rfl, .attached hjoined hon hset, h⟩
      | none =>
          match ws with
          | .plain text :: ws =>
              obtain ⟨o, hon, h⟩ := exists_of_bind_eq_ok h
              obtain ⟨o', hset, h⟩ := exists_of_bind_eq_ok h
              exact ⟨[_, _], ws, _, rfl, .value hjoined hon hset, h⟩
          | [] | .separator :: _ | .unknown _ :: _ | .option .. :: _ => cases h

/-- Words without a separator begin with what is taken in a step, or with one that
    is no option: the formula, or one too many. -/
theorem take_cases {p q : Progress} {ws : List Word} (hsep : .separator ∉ ws)
    (h : take p ws = .ok q) :
    (ws = [] ∧ p = q) ∨
    (∃ text rest, ws = .plain text :: rest ∧
      (if p.placeTaken then take (p.leave text) rest
        else take { p with placeTaken := true, options.formula := some text } rest) = .ok q) ∨
    ∃ taken rest p', ws = taken ++ rest ∧ Step p taken p' ∧ take p' rest = .ok q := by
  match ws with
  | [] => exact .inl ⟨rfl, Except.ok.inj h⟩
  | .separator :: _ => exact absurd (List.mem_cons_self ..) hsep
  | .plain text :: rest =>
      rw [take_plain p text (List.not_mem_of_not_mem_cons hsep)] at h
      exact .inr (.inl ⟨text, rest, rfl, h⟩)
  | .unknown text :: rest =>
      rw [take_unknown] at h
      exact .inr (.inr ⟨[_], rest, _, rfl, .unknown text, h⟩)
  | .option f isLong attached :: _ => exact .inr (.inr (step_of_option h))

-- ── The place of the formula ──────────────────────────────────────────────

section

variable {o o' : Options} {f : Flag}

theorem Options.switchOn_formula (h : o.switchOn f = .ok o') : o'.formula = o.formula := by
  cases f <;> cases h <;> rfl

theorem Options.switchAllOn_formula {fs : List Flag} :
    ∀ {o : Options}, o.switchAllOn fs = .ok o' → o'.formula = o.formula := by
  induction fs with
  | nil =>
      intro o h
      cases h
      rfl
  | cons f fs ih =>
      intro o h
      rw [switchAllOn, List.foldlM_cons] at h
      obtain ⟨o₁, hf, hfs⟩ := exists_of_bind_eq_ok h
      rw [ih hfs, switchOn_formula hf]

theorem Options.setValue_formula {value : Value String} (h : o.setValue f value = .ok o') :
    o'.formula = o.formula := by
  unfold setValue at h
  split at h
  · cases h
    rfl
  · cases h
    rfl
  · split at h <;> cases h
    rfl
  · cases h
    rfl

end

section

variable {p p' q : Progress} {taken ws : List Word}

theorem Step.formula (h : Step p taken p') : p'.options.formula = p.options.formula := by
  cases h with
  | switches _ hon => exact Options.switchAllOn_formula hon
  | attached _ hon hset =>
      exact (Options.setValue_formula hset).trans (Options.switchAllOn_formula hon)
  | value _ hon hset =>
      exact (Options.setValue_formula hset).trans (Options.switchAllOn_formula hon)
  | unknown text => rfl

theorem Step.placeTaken (h : Step p taken p') : p'.placeTaken = p.placeTaken := by
  cases h <;> rfl

theorem Step.length_pos (h : Step p taken p') : 0 < taken.length := by
  cases h <;> exact Nat.succ_pos _

/-- Words without a separator are taken, one step after another. -/
inductive Taken : Progress → List Word → Progress → Prop where
  | nil {p : Progress} : Taken p [] p
  | formula {p q : Progress} {text : String} {ws : List Word} : p.placeTaken = false →
      Taken { p with placeTaken := true, options.formula := some text } ws q →
      Taken p (.plain text :: ws) q
  | surplus {p q : Progress} {text : String} {ws : List Word} : p.placeTaken = true →
      Taken (p.leave text) ws q → Taken p (.plain text :: ws) q
  | step {p p' q : Progress} {taken ws : List Word} : Step p taken p' → Taken p' ws q →
      Taken p (taken ++ ws) q

/-- Induction on the number of words, for a value is taken along with its option. -/
theorem taken_of_take {p q : Progress} {ws : List Word} (hsep : .separator ∉ ws)
    (h : take p ws = .ok q) : Taken p ws q := by
  induction hn : ws.length using Nat.strongRecOn generalizing p ws with
  | ind n ih =>
      subst hn
      rcases take_cases hsep h with ⟨rfl, rfl⟩ | ⟨text, rest, rfl, hrest⟩ |
        ⟨taken, rest, p', rfl, hstep, hrest⟩
      · exact .nil
      · have hsep := List.not_mem_of_not_mem_cons hsep
        split at hrest
        · exact .surplus ‹_› (ih _ (Nat.lt_succ_self _) hsep hrest rfl)
        · exact .formula ((Bool.not_eq_true _).mp ‹_›) (ih _ (Nat.lt_succ_self _) hsep hrest rfl)
      · have hshorter : rest.length < (taken ++ rest).length := by
          have hpos := hstep.length_pos
          rw [List.length_append]
          omega
        exact .step hstep (ih _ hshorter (fun hw => hsep (List.mem_append_right _ hw)) hrest rfl)

/-- A formula that has been set stays set. -/
theorem Taken.formula_eq_none (h : Taken p ws q) (hq : q.options.formula = none) :
    p.options.formula = none := by
  induction h with
  | nil => exact hq
  | formula _ _ ih => cases ih hq
  | surplus _ _ ih => exact ih hq
  | step hstep _ ih => exact hstep.formula.symm.trans (ih hq)

/-- **Words that are taken without a formula are taken in front of any words.** -/
theorem Taken.take_append (h : Taken p ws q) (hp : p.placeTaken = false)
    (hq : q.options.formula = none) :
    q.placeTaken = false ∧ ∀ more, take p (ws ++ more) = take q more := by
  induction h with
  | nil => exact ⟨hp, fun _ => rfl⟩
  | formula _ hrest _ => cases hrest.formula_eq_none hq
  | surplus htaken _ _ => cases hp.symm.trans htaken
  | step hstep _ ih =>
      obtain ⟨hplace, hmore⟩ := ih (hstep.placeTaken.trans hp) hq
      refine ⟨hplace, fun more => ?_⟩
      rw [List.append_assoc, hstep.take_append, hmore]

end

-- ── Whole command lines ───────────────────────────────────────────────────

/-- An argument in front of the double dash is classified by itself. -/
theorem exists_of_classifyAll_cons {arg : String} {args : List String} (hne : arg ≠ "--")
    {ws : List Word} (h : classifyAll (arg :: args) = .ok ws) :
    ∃ w later, classify arg = .ok w ∧ classifyAll args = .ok later ∧ ws = w :: later := by
  rw [classifyAll, if_neg hne] at h
  obtain ⟨w, hw, h⟩ := exists_of_bind_eq_ok h
  obtain ⟨later, hlater, h⟩ := exists_of_bind_eq_ok h
  exact ⟨w, later, hw, hlater, (Except.ok.inj h).symm⟩

theorem classifyAll_append {args more : List String} (hdash : "--" ∉ args) {ws : List Word}
    (h : classifyAll args = .ok ws) :
    classifyAll (args ++ more) = (classifyAll more).map (ws ++ ·) := by
  induction args generalizing ws with
  | nil =>
      cases h
      rw [List.nil_append]
      cases classifyAll more <;> rfl
  | cons arg args ih =>
      have hne : arg ≠ "--" := fun heq => hdash (heq ▸ List.mem_cons_self ..)
      obtain ⟨w, later, hw, hlater, rfl⟩ := exists_of_classifyAll_cons hne h
      rw [List.cons_append, classifyAll, if_neg hne, hw,
        ih (List.not_mem_of_not_mem_cons hdash) hlater]
      cases classifyAll more <;> rfl

theorem classifyUnknown_ne_separator (arg : String) : classifyUnknown arg ≠ .separator := by
  unfold classifyUnknown
  split <;> exact Word.noConfusion

/-- Only the double dash is the separator. -/
theorem classify_ne_separator (arg : String) : classify arg ≠ .ok .separator := by
  have hunknown : (.ok (classifyUnknown arg) : Except UsageError Word) ≠ .ok .separator :=
    fun h => classifyUnknown_ne_separator arg (Except.ok.inj h)
  unfold classify
  dsimp only
  split
  · split
    · exact fun h => nomatch h
    · exact fun h => nomatch h
    · unfold classifyLong
      split
      · exact hunknown
      · exact fun h => nomatch h
      · exact fun h => nomatch h
  · exact fun h => nomatch h
  · split
    · exact hunknown
    · exact fun h => nomatch h
  · exact fun h => nomatch h

theorem separator_not_mem {args : List String} (hdash : "--" ∉ args) {ws : List Word}
    (h : classifyAll args = .ok ws) : .separator ∉ ws := by
  induction args generalizing ws with
  | nil =>
      cases h
      exact List.not_mem_nil
  | cons arg args ih =>
      have hne : arg ≠ "--" := fun heq => hdash (heq ▸ List.mem_cons_self ..)
      obtain ⟨w, later, hw, hlater, rfl⟩ := exists_of_classifyAll_cons hne h
      intro hmem
      rcases List.mem_cons.mp hmem with rfl | hmem
      · exact classify_ne_separator arg hw
      · exact ih (List.not_mem_of_not_mem_cons hdash) hlater hmem

/-- Reads further arguments, when those in front have come to some options and none
    of them was the formula. -/
def Options.readOn (o : Options) (args : List String) : Except Stop Options := do
  let words ← (classifyAll args).mapError .refused
  let p ← take ⟨o, false, []⟩ words
  if p.leftOver = [] then .ok p.options
  else .error (.refused (.unrecognized p.leftOver.reverse))

theorem Options.ofArguments_eq_readOn (args : List String) :
    ofArguments args = readOn {} args := rfl

/-- **Reading goes on.**  When arguments without a double dash come to options
    without a formula, whatever is put behind them is read on from these. -/
theorem Options.ofArguments_append {args : List String} {o : Options} (hdash : "--" ∉ args)
    (h : ofArguments args = .ok o) (hformula : o.formula = none) (more : List String) :
    ofArguments (args ++ more) = o.readOn more := by
  obtain ⟨ws, hws, h⟩ := exists_of_bind_eq_ok h
  obtain ⟨p, hp, h⟩ := exists_of_bind_eq_ok h
  have hclass := eq_ok_of_mapError hws
  split at h
  · cases h
    obtain ⟨hplace, hmore⟩ :=
      (taken_of_take (separator_not_mem hdash hclass) hp).take_append rfl hformula
    have hprogress : p = ⟨p.options, false, []⟩ := by
      rw [← hplace, ← ‹p.leftOver = []›]
    rw [ofArguments_eq_readOn, readOn, readOn, classifyAll_append hdash hclass]
    cases classifyAll more with
    | error e => rfl
    | ok later =>
        show (take {} (ws ++ later)).bind _ = (take ⟨p.options, false, []⟩ later).bind _
        rw [hmore, ← hprogress]
  · cases h

-- ── Sources named behind other arguments ──────────────────────────────────

theorem Flag.equals_not_mem (f : Flag) : '=' ∉ f.longName.toList := by
  cases f <;> decide

/-- No option has an equals sign in its name. -/
theorem Flag.ofName?_attached (f : Flag) (value : List Char) :
    ofName? (f.longName.toList ++ '=' :: value) = none := by
  have hnone : all.find? (fun g => g.longName.toList = f.longName.toList ++ '=' :: value) =
      none := by
    refine List.find?_eq_none.mpr fun g _ hg => g.equals_not_mem ?_
    rw [of_decide_eq_true hg]
    simp
  cases f <;> exact hnone

/-- A long option with a value behind an equals sign. -/
theorem classify_attached (f : Flag) (value : String) :
    classify (f.longName ++ "=" ++ value) = .ok (.option f true (some value.toList)) := by
  have hcs : (f.longName ++ "=" ++ value).toList = f.longName.toList ++ '=' :: value.toList := by
    simp [String.toList_append]
  have hname : (f.longName.toList ++ '=' :: value.toList).takeWhile (· ≠ '=') =
      f.longName.toList := by
    rw [List.takeWhile_append_of_pos, List.takeWhile_cons_of_neg (by simp), List.append_nil]
    intro c hc
    rw [decide_eq_true_iff]
    rintro rfl
    exact f.equals_not_mem hc
  have hvalue : (f.longName.toList ++ '=' :: value.toList).drop (f.longName.toList.length + 1) =
      value.toList := by
    rw [← List.drop_drop, List.drop_left]
    rfl
  have hshort : Flag.ofName? f.longName.toList = some f := by
    cases f <;> rfl
  unfold classify
  rw [hcs]
  dsimp only
  rw [hname, Flag.ofName?_attached, hshort, hvalue, if_pos (by simp)]
  cases f <;> rfl

theorem classifyAll_attached (f : Flag) (value : String) :
    classifyAll [f.longName ++ "=" ++ value] = .ok [.option f true (some value.toList)] := by
  have hne : f.longName ++ "=" ++ value ≠ "--" := by
    intro h
    have hmem : '=' ∈ (f.longName ++ "=" ++ value).toList := by simp [String.toList_append]
    rw [h] at hmem
    exact absurd hmem (by decide)
  rw [classifyAll, if_neg hne, classify_attached]
  rfl

theorem Options.setAttached_of_ne {o : Options} {f : Flag} {text : String} (h : text ≠ "--") :
    o.setAttached f text = o.setValue f (some text) := by
  rw [setAttached, if_neg h]

/-- Nothing is left over. -/
theorem Options.readOn_of_take {o o' : Options} {args : List String} {ws : List Word}
    {placeTaken : Bool} (hws : classifyAll args = .ok ws)
    (h : take ⟨o, false, []⟩ ws = .ok ⟨o', placeTaken, []⟩) : o.readOn args = .ok o' := by
  rw [readOn, hws]
  show (take _ ws).bind _ = _
  rw [h]
  rfl

/-- A formula behind the double dash is read whatever it looks like. -/
theorem Options.readOn_formula (o : Options) (text : String) :
    o.readOn ["--", text] = .ok { o with formula := some text } := rfl

/-- A formula that does not begin with a dash needs none. -/
theorem Options.readOn_plain (o : Options) {text : String} (h : text.toList.head? ≠ some '-') :
    o.readOn [text] = .ok { o with formula := some text } := by
  have hne : text ≠ "--" := by
    rintro rfl
    exact h (by decide)
  have hplain : classify text = .ok (.plain text) := by
    unfold classify
    dsimp only
    split
    · exact absurd (by rw [‹text.toList = _›]; rfl) h
    · exact absurd (by rw [‹text.toList = _›]; rfl) h
    · exact absurd (by rw [‹text.toList = _›]; rfl) h
    · rfl
  have hclass : classifyAll [text] = .ok [.plain text] := by
    rw [classifyAll, if_neg hne, hplain]
    rfl
  exact readOn_of_take hclass rfl

theorem Options.readOn_file (o : Options) {path : String} (hpath : path ≠ "--") :
    o.readOn ["--file=" ++ path] = .ok { o with file := some (some path) } := by
  have hset : o.setAttached .file (String.ofList path.toList) =
      .ok { o with file := some (some path) } := by
    rw [String.ofList_toList, setAttached_of_ne hpath]
    rfl
  have hfile : Step ⟨o, false, []⟩ [.option .file true (some path.toList)]
      ⟨{ o with file := some (some path) }, false, []⟩ := .attached rfl rfl hset
  exact readOn_of_take (classifyAll_attached .file path) (hfile.take_append [])

theorem Options.readOn_seed (o : Options) {value : String} {seed : Int}
    (hvalue : Text.integer? value = some seed) :
    o.readOn ["--random", "--seed=" ++ value] =
      .ok { o with random := true, seed := some (some seed) } := by
  have hne : value ≠ "--" := by
    have hdash : Text.integer? "--" = none := by decide
    rintro rfl
    cases hdash.symm.trans hvalue
  have hset : { o with random := true }.setAttached .seed (String.ofList value.toList) =
      .ok { o with random := true, seed := some (some seed) } := by
    rw [String.ofList_toList, setAttached_of_ne hne, setValue, hvalue]
  have hrandom : Step ⟨o, false, []⟩ [.option .random true none]
      ⟨{ o with random := true }, false, []⟩ := .switches rfl rfl
  have hseed : Step ⟨{ o with random := true }, false, []⟩ [.option .seed true (some value.toList)]
      ⟨{ o with random := true, seed := some (some seed) }, false, []⟩ := .attached rfl rfl hset
  have hlast : classifyAll ["--seed=" ++ value] = .ok [.option .seed true (some value.toList)] :=
    classifyAll_attached .seed value
  have hclass : classifyAll ["--random", "--seed=" ++ value] =
      .ok [.option .random true none, .option .seed true (some value.toList)] := by
    rw [classifyAll, if_neg (by decide), hlast]
    rfl
  exact readOn_of_take hclass ((hrandom.take_append _).trans (hseed.take_append []))

end TruthTables.Command
