import TruthTables.Proofs.Blind
import TruthTables.Proofs.Parsing
import TruthTables.Proofs.Spelling

/-!
# Printing — what is printed is read back

    A printed formula is a text like any other, so it can be read.  With any
    glyphs that spell their connectives (`Glyphs.Readable`) it is read as the
    same formula, identities aside, exactly when its leaves have the names
    that a text can give: one letter each (`Lettered`).

    Three facts meet here.  A text is read as what the grammar derives from
    the symbols that it writes (`ofText_bare_iff`).  A lettered formula is
    printed with its own `symbols`, which derive it (`written_render`,
    `derives_symbols`); every pair of parentheses is there, so nothing hangs
    on binding strengths.  And whatever is read is lettered
    (`lettered_of_derives`).
-/

namespace TruthTables

/-- Every glyph is a spelling of its connective. -/
def Glyphs.Readable (g : Glyphs) : Prop := ∀ c : Connective, g.symbol c ∈ c.spellings

theorem Glyphs.readable_ascii : ascii.Readable
  | .not => by decide
  | .bin op => by cases op <;> decide

theorem Glyphs.readable_unicode : unicode.Readable
  | .not => by decide
  | .bin op => by cases op <;> decide

namespace Formula

-- ── What a text is read as ────────────────────────────────────────────────

/-- A text is read as what the grammar derives from the symbols it writes. -/
theorem ofText_bare_iff (text : String) (t : Formula) :
    (∃ f, ofText text = .ok f ∧ f.bare = t) ↔
      ∃ ss, Written text.toList ss ∧ Stratum.whole.Derives ss t := by
  constructor
  · rintro ⟨f, hf, rfl⟩
    obtain ⟨ts, hs, hts⟩ := ofText_eq_ok_iff.mp hf
    exact ⟨_, Token.written_of_scanFrom hs, (ofTokens_derives ts f.bare).mp ⟨f, hts, rfl⟩⟩
  · rintro ⟨ss, hw, hd⟩
    obtain ⟨ts, hts, rfl⟩ := Token.scanFrom_of_written hw 0
    obtain ⟨f, hf, hbare⟩ := (ofTokens_derives ts t).mpr hd
    refine ⟨f, ?_, hbare⟩
    rw [ofText_of_scan hts, hf]
    rfl

/-- Every leaf is named by a single letter from A to Z, other than V. -/
def Lettered (f : Formula) : Prop :=
  ∀ name ∈ f.leafNames, ∃ c : Char, 'A' ≤ c ∧ c ≤ 'Z' ∧ c ≠ 'V' ∧ name = String.singleton c

/-- What is derived from letters that name atoms is lettered. -/
theorem lettered_of_derives {s : Stratum} {ss : List Symbol} {f : Formula} (h : s.Derives ss f)
    (hss : ∀ c, Symbol.letter c ∈ ss → Symbol.isAtomLetter c = true) : f.Lettered := by
  induction h with
  | single _ ih => exact ih hss
  | join _ _ ihf ihg =>
      have hf := ihf fun c hc => hss c (List.mem_append.mpr (.inl hc))
      have hg := ihg fun c hc => hss c (List.mem_append.mpr (.inr (List.mem_cons_of_mem _ hc)))
      intro name hn
      rcases List.mem_append.mp hn with hn | hn
      · exact hf name hn
      · exact hg name hn
  | neg _ ih => exact ih fun c hc => hss c (List.mem_cons_of_mem _ hc)
  | letter c =>
      intro name hn
      obtain rfl := List.mem_singleton.mp hn
      obtain ⟨hA, hZ, hV⟩ := Symbol.isAtomLetter_iff.mp (hss c (List.mem_singleton.mpr rfl))
      exact ⟨c, hA, hZ, hV, rfl⟩
  | paren _ ih =>
      exact ih fun c hc => hss c (List.mem_cons_of_mem _ (List.mem_append.mpr (.inl hc)))

/-- Whatever a text is read as is lettered. -/
theorem lettered_of_ofText {text : String} {f : Formula} (h : ofText text = .ok f) :
    f.bare.Lettered := by
  obtain ⟨ss, hw, hd⟩ := (ofText_bare_iff text f.bare).mp ⟨f, h, rfl⟩
  exact lettered_of_derives hd hw.isAtomLetter

-- ── The symbols of a printed formula ──────────────────────────────────────

/-- The symbols that the formula is printed with. -/
def symbols : Formula → List Symbol
  | .atom name _ => name.toList.map .letter
  | .neg f _ => .connective .not :: f.symbols
  | .bin op l r _ => .lparen :: (l.symbols ++ .connective (.bin op) :: r.symbols ++ [.rparen])

theorem lettered_bare_iff {f : Formula} : f.bare.Lettered ↔ f.Lettered := by
  simp only [Lettered, leafNames_bare]

theorem Lettered.operands {op : BinOp} {l r : Formula} {i : NodeId}
    (h : (Formula.bin op l r i).Lettered) : l.Lettered ∧ r.Lettered :=
  ⟨fun name hn => h name (List.mem_append.mpr (.inl hn)),
    fun name hn => h name (List.mem_append.mpr (.inr hn))⟩

/-- A lettered formula is printed with its symbols. -/
theorem written_render {g : Glyphs} (hg : g.Readable) {f : Formula} (hf : f.Lettered) :
    Written (f.render g).toList f.symbols := by
  induction f with
  | atom name i =>
      obtain ⟨c, hA, hZ, hV, rfl⟩ := hf name (List.mem_singleton.mpr rfl)
      have hc := Symbol.isAtomLetter_iff.mpr ⟨hA, hZ, hV⟩
      have hw := Written.single (Symbol.mem_spellings_letter.mpr ⟨hc, rfl⟩)
      simpa [render, symbols] using hw
  | neg f i ih =>
      rw [render, symbols, String.toList_append]
      exact .spelling (hg .not) (ih hf)
  | bin op l r i ihl ihr =>
      obtain ⟨hl, hr⟩ := hf.operands
      have hspace : Written [' '] [] := .ignored rfl .nil
      have hop : Written (g.bin op).toList [.connective (.bin op)] := .single (hg (.bin op))
      have hopen : Written ['('] [.lparen] := .single (w := "(") (List.mem_singleton.mpr rfl)
      have hshut : Written [')'] [.rparen] := .single (w := ")") (List.mem_singleton.mpr rfl)
      have hleft := (hopen.append (ihl hl)).append hspace
      have hright := (hspace.append (ihr hr)).append hshut
      simpa [render, symbols] using (hleft.append hop).append hright

/-- The symbols of a lettered formula derive it, wherever an operand may stand. -/
theorem derives_symbols {f : Formula} (hf : f.Lettered) :
    Stratum.operand.Derives f.symbols f.bare := by
  induction f with
  | atom name i =>
      obtain ⟨c, -, -, -, rfl⟩ := hf name (List.mem_singleton.mpr rfl)
      have hsymbols : (Formula.atom (String.singleton c) i).symbols = [.letter c] := by
        simp [symbols]
      rw [hsymbols]
      exact .letter c
  | neg f i ih => exact (ih hf).neg
  | bin op l r i ihl ihr =>
      obtain ⟨hl, hr⟩ := hf.operands
      have hleft : (Stratum.chain op).Derives l.symbols l.bare :=
        (ihl hl).loosen (Stratum.strength_le_five _)
      have hright : (Stratum.rightOf op).Derives r.symbols r.bare :=
        (ihr hr).loosen (Stratum.strength_le_five _)
      exact .paren ((hleft.join hright).loosen (Stratum.strength_pos _))

/-- A lettered formula is read back from what is printed. -/
theorem exists_ofText_render {g : Glyphs} (hg : g.Readable) {t : Formula} (ht : t.Lettered) :
    ∃ f, ofText (t.render g) = .ok f ∧ f.bare = t.bare := by
  refine (ofText_bare_iff _ _).mpr ⟨t.symbols, written_render hg ht, ?_⟩
  exact (derives_symbols ht).loosen (Stratum.strength_le_five _)

/-- **Printing, then reading.**  What is printed with readable glyphs is read as
    the same formula, identities aside, exactly when every leaf is named by one
    letter from A to Z other than V.  Then it is printed in the same way again,
    and no two such formulas are printed alike. -/
theorem ofText_render_iff_lettered {g : Glyphs} (hg : g.Readable) (t : Formula) :
    ((∃ f, ofText (t.render g) = .ok f ∧ f.bare = t.bare) ↔ t.Lettered) ∧
      (∀ f, ofText (t.render g) = .ok f → f.bare = t.bare → f.render g = t.render g) ∧
      ∀ u : Formula, t.Lettered → u.Lettered → t.render g = u.render g → t.bare = u.bare := by
  refine ⟨⟨?_, exists_ofText_render hg⟩, ?_, ?_⟩
  · rintro ⟨f, hf, hbare⟩
    have hlettered := lettered_of_ofText hf
    rw [hbare] at hlettered
    exact lettered_bare_iff.mp hlettered
  · intro f _ hbare
    rw [← render_bare g f, hbare, render_bare]
  · intro u ht hu heq
    obtain ⟨f, hf, hft⟩ := exists_ofText_render hg ht
    obtain ⟨f', hf', hfu⟩ := exists_ofText_render hg hu
    rw [heq, hf'] at hf
    obtain rfl := Except.ok.inj hf
    exact hft.symm.trans hfu

/-- Glyphs of both kinds, and V for disjunction: "(¬A V (Z → ¬¬W))" is read back. -/
theorem ofText_render_mixed_glyphs :
    Glyphs.Readable ⟨"¬", "&", "V", "→", "<->"⟩ ∧
      ∃ t : Formula, t.render ⟨"¬", "&", "V", "→", "<->"⟩ = "(¬A V (Z → ¬¬W))" ∧ t.Lettered ∧
        ∃ f, ofText "(¬A V (Z → ¬¬W))" = .ok f ∧ f.bare = t.bare := by
  have hg : Glyphs.Readable ⟨"¬", "&", "V", "→", "<->"⟩
    | .not => by decide
    | .bin op => by cases op <;> decide
  let t : Formula := .bin .or (.neg (.atom "A" none) none)
    (.bin .imp (.atom "Z" none) (.neg (.neg (.atom "W" none) none) none) none) none
  have ht : t.Lettered := by
    intro name hn
    simp only [t, leafNames, List.cons_append, List.nil_append, List.mem_cons, List.not_mem_nil,
      or_false] at hn
    rcases hn with rfl | rfl | rfl
    · exact ⟨'A', by decide, by decide, by decide, rfl⟩
    · exact ⟨'Z', by decide, by decide, by decide, rfl⟩
    · exact ⟨'W', by decide, by decide, by decide, rfl⟩
  exact ⟨hg, t, rfl, ht, (ofText_render_iff_lettered hg t).1.mpr ht⟩

/-- V is read as a connective, so an atom of that name is not read back. -/
example : ofText ((Formula.atom "V" none).render .ascii) =
    .error (.parse (.unexpected ⟨.connective (.bin .or), "V", 0⟩)) := rfl

end Formula

end TruthTables
