import TruthTables.Loaded
import TruthTables.Proofs.Plain

/-!
# Strictness — which texts are read without a warning

    A sequence of symbols is strict when it has a pair of parentheses around
    every binary connective with its operands, and no other pair.  The check
    that warns a learner knows nothing of this: it compares two texts, both
    without blanks and in ASCII spelling.

    It comes to the same.  The normal form of a text tells sequences of symbols
    apart (`Symbol.plain_injective`), so the check compares the symbols of the
    text with those of the printed formula, and strict sequences are exactly
    the printed ones (`Strict.exists_symbols`, `strict_symbols`).
-/

namespace TruthTables

/-- Every binary connective has its own pair of parentheses, and there are no
    others:

        F ::= VAR | NOT F | LPAREN F (AND | OR | IMP | BICOND) F RPAREN -/
inductive Strict : List Symbol → Prop where
  | letter (c : Char) : Strict [.letter c]
  | neg {ss : List Symbol} : Strict ss → Strict (.connective .not :: ss)
  | bin (op : BinOp) {ss ts : List Symbol} : Strict ss → Strict ts →
      Strict (.lparen :: (ss ++ .connective (.bin op) :: ts ++ [.rparen]))

/-- Strict symbols are those of some printed formula, and derive it. -/
theorem Strict.exists_symbols {ss : List Symbol} (h : Strict ss) :
    ∃ f : Formula, f.symbols = ss ∧ Stratum.operand.Derives ss f := by
  induction h with
  | letter c => exact ⟨.atom (String.singleton c) none, by simp [Formula.symbols], .letter c⟩
  | neg _ ih =>
      obtain ⟨f, rfl, hd⟩ := ih
      exact ⟨.neg f none, rfl, hd.neg⟩
  | bin op _ _ ihl ihr =>
      obtain ⟨l, rfl, hl⟩ := ihl
      obtain ⟨r, rfl, hr⟩ := ihr
      have hleft : (Stratum.chain op).Derives l.symbols l :=
        hl.loosen (Stratum.strength_le_five _)
      have hright : (Stratum.rightOf op).Derives r.symbols r :=
        hr.loosen (Stratum.strength_le_five _)
      exact ⟨.bin op l r none, rfl, .paren ((hleft.join hright).loosen (Stratum.strength_pos _))⟩

namespace Formula

/-- Identities do not show in the symbols. -/
theorem blind_symbols : Blind symbols where
  atom _ _ _ := rfl
  neg _ _ h := by rw [symbols, symbols, h]
  bin _ _ _ _ _ _ _ hl hr := by rw [symbols, symbols, hl, hr]

/-- A lettered formula is printed strictly. -/
theorem strict_symbols {f : Formula} (hf : f.Lettered) : Strict f.symbols := by
  induction f with
  | atom name i =>
      obtain ⟨c, -, -, -, rfl⟩ := hf name (List.mem_singleton.mpr rfl)
      have hsymbols : (Formula.atom (String.singleton c) i).symbols = [.letter c] := by
        simp [symbols]
      rw [hsymbols]
      exact .letter c
  | neg f i ih => exact .neg (ih hf)
  | bin op l r i ihl ihr =>
      obtain ⟨hl, hr⟩ := hf.operands
      exact .bin op (ihl hl) (ihr hr)

/-- Of the symbols that derive a formula, the strict ones are those that it is
    printed with. -/
theorem strict_iff_eq_symbols {f : Formula} {ss : List Symbol} (hf : f.Lettered)
    (hd : Stratum.whole.Derives ss f.bare) : Strict ss ↔ ss = f.symbols := by
  constructor
  · intro h
    obtain ⟨g, rfl, hg⟩ := h.exists_symbols
    have heq := (hg.loosen (Stratum.strength_le_five _)).unique hd
    rw [heq, blind_symbols.bare]
  · rintro rfl
    exact strict_symbols hf

end Formula

-- ── The warning ───────────────────────────────────────────────────────────

/-- A text departs from a formula when it does not write the symbols that the
    formula is printed with. -/
theorem Formula.departs_eq_false_iff {text : String} {f : Formula} {ss : List Symbol}
    (hw : Written text.toList ss) (hf : f.Lettered) :
    f.departs text = false ↔ ss = f.symbols := by
  have hprinted : Written f.ascii.toList f.symbols := written_render Glyphs.readable_ascii hf
  have htext : Spelling.applyAll Spelling.rules text.toList = Symbol.plain ss :=
    Spelling.applyAll_written hw
  have hascii : Spelling.applyAll Spelling.rules f.ascii.toList = Symbol.plain f.symbols :=
    Spelling.applyAll_written hprinted
  rw [departs, decide_eq_false_iff_not, ne_eq, Decidable.not_not, Spelling.normalize,
    Spelling.normalize, htext, hascii, String.ofList_inj]
  constructor
  · intro h
    exact Symbol.plain_injective hw.isAtomLetter hprinted.isAtomLetter h
  · rintro rfl
    rfl

namespace Loaded

/-- Loading is reading, with the canonical text and the warning added. -/
theorem ofText_eq_ok_iff {text : String} {l : Loaded} :
    ofText text = .ok l ↔
      ∃ f, Formula.ofText text = .ok f ∧ l = ⟨f, f.unicode, f.departs text⟩ := by
  rw [ofText]
  cases Formula.ofText text with
  | error e =>
      constructor
      · intro h
        cases h
      · rintro ⟨f, hf, -⟩
        cases hf
  | ok f =>
      constructor
      · intro h
        exact ⟨f, rfl, (Except.ok.inj h).symm⟩
      · rintro ⟨f', hf, rfl⟩
        cases hf
        rfl

/-- A text that writes symbols from which a formula is derived is loaded as that
    formula, with its canonical text. -/
theorem exists_ofText {text : String} {ss : List Symbol} {t : Formula}
    (hw : Written text.toList ss) (hd : Stratum.whole.Derives ss t) :
    ∃ l, ofText text = .ok l ∧ l.root.bare = t ∧ l.canonical = t.unicode := by
  obtain ⟨f, hf, rfl⟩ := (Formula.ofText_bare_iff text t).mpr ⟨ss, hw, hd⟩
  refine ⟨_, ofText_eq_ok_iff.mpr ⟨f, hf, rfl⟩, rfl, ?_⟩
  exact (Formula.render_bare .unicode f).symm

/-- The symbols of a text that is loaded derive the formula, and there is no
    warning exactly when they are strict. -/
theorem derives_and_warns {text : String} {ss : List Symbol} {l : Loaded}
    (h : ofText text = .ok l) (hw : Written text.toList ss) :
    Stratum.whole.Derives ss l.root.bare ∧ (l.warns = false ↔ Strict ss) := by
  obtain ⟨f, hf, rfl⟩ := ofText_eq_ok_iff.mp h
  obtain ⟨ss', hw', hd⟩ := (Formula.ofText_bare_iff text f.bare).mp ⟨f, hf, rfl⟩
  obtain rfl := hw'.unique hw
  have hlettered := Formula.lettered_bare_iff.mp (Formula.lettered_of_ofText hf)
  refine ⟨hd, ?_⟩
  dsimp only
  rw [Formula.departs_eq_false_iff hw hlettered, Formula.strict_iff_eq_symbols hlettered hd]

/-- The canonical text of a lettered formula is loaded without a warning, and is
    canonical. -/
theorem ofText_unicode {f : Formula} (hf : f.Lettered) :
    ∃ l, ofText f.unicode = .ok l ∧ l.canonical = f.unicode ∧ l.warns = false := by
  have hw : Written f.unicode.toList f.symbols := Formula.written_render Glyphs.readable_unicode hf
  have hd : Stratum.whole.Derives f.symbols f.bare :=
    (Formula.derives_symbols hf).loosen (Stratum.strength_le_five _)
  obtain ⟨l, hl, -, hcanonical⟩ := exists_ofText hw hd
  refine ⟨l, hl, hcanonical.trans (Formula.render_bare .unicode f), ?_⟩
  exact (derives_and_warns hl hw).2.mpr (Formula.strict_symbols hf)

/-- **A warning means wrong parentheses.**  A text that is read is loaded, without
    a warning exactly when its symbols are strict.  So every text with the same
    symbols is treated alike, whatever blanks and spellings it has; and of the
    texts that are read as one formula, those without a warning all have the same
    symbols.  The canonical text is loaded without a warning, and is canonical. -/
theorem warns_eq_false_iff_strict {text : String} {root : Formula}
    (h : Formula.ofText text = .ok root) :
    ∃ l ts, ofText text = .ok l ∧ l.root = root ∧ Token.scan text = .ok ts ∧
      (l.warns = false ↔ Strict (ts.map Token.symbol)) ∧
      (∀ text' ts', Token.scan text' = .ok ts' → ts'.map Token.symbol = ts.map Token.symbol →
        ∃ l', ofText text' = .ok l' ∧ l'.canonical = l.canonical ∧ l'.warns = l.warns) ∧
      (∀ text' ts' l', Token.scan text' = .ok ts' → ofText text' = .ok l' →
        l'.root.bare = root.bare → l.warns = false → l'.warns = false →
          ts'.map Token.symbol = ts.map Token.symbol) ∧
      ∃ l', ofText l.canonical = .ok l' ∧ l'.canonical = l.canonical ∧ l'.warns = false := by
  have hlettered := Formula.lettered_bare_iff.mp (Formula.lettered_of_ofText h)
  obtain ⟨ss, hw, hd⟩ := (Formula.ofText_bare_iff text root.bare).mp ⟨root, h, rfl⟩
  obtain ⟨ts, hts, rfl⟩ := Token.scanFrom_of_written hw 0
  have hl : ofText text = .ok ⟨root, root.unicode, root.departs text⟩ :=
    ofText_eq_ok_iff.mpr ⟨root, h, rfl⟩
  obtain ⟨-, hwarns⟩ := derives_and_warns hl hw
  refine ⟨_, ts, hl, rfl, hts, hwarns, ?_, ?_, ofText_unicode hlettered⟩
  · intro text' ts' hts' heq
    have hw' := Token.written_of_scanFrom hts'
    rw [heq] at hw'
    obtain ⟨l', hl', -, hcanonical'⟩ := exists_ofText hw' hd
    obtain ⟨-, hwarns'⟩ := derives_and_warns hl' hw'
    refine ⟨l', hl', hcanonical'.trans (Formula.render_bare .unicode root), ?_⟩
    exact Bool.eq_iff_iff.mpr (by
      rw [← Bool.not_eq_false, ← Bool.not_eq_false, hwarns, hwarns'])
  · intro text' ts' l' hts' hl' hroot hno hno'
    have hw' := Token.written_of_scanFrom hts'
    obtain ⟨hd', hwarns'⟩ := derives_and_warns hl' hw'
    rw [hroot] at hd'
    -- both sequences are strict and derive the formula, so both are its symbols
    rw [(Formula.strict_iff_eq_symbols hlettered hd).mp (hwarns.mp hno)]
    exact (Formula.strict_iff_eq_symbols hlettered hd').mp (hwarns'.mp hno')

/-- "P & Q" lacks its parentheses: it is loaded, but its symbols are not strict. -/
theorem not_strict_without_parentheses :
    ∃ root ts, Formula.ofText "P & Q" = .ok root ∧ Token.scan "P & Q" = .ok ts ∧
      ¬ Strict (ts.map Token.symbol) := by
  obtain ⟨root, hroot⟩ : ∃ root, Formula.ofText "P & Q" = .ok root := ⟨_, rfl⟩
  obtain ⟨l, ts, hl, -, hts, hstrict, -⟩ := warns_eq_false_iff_strict hroot
  refine ⟨root, ts, hroot, hts, fun h => ?_⟩
  have hwarns := hstrict.mpr h
  cases hl
  cases hwarns

end Loaded

end TruthTables
