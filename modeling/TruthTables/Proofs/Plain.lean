import TruthTables.Proofs.Printing
import TruthTables.Proofs.Substitution

/-!
# Plain texts — a text without blanks and choices is its symbols

    Two readers look at a text and know nothing of each other.  The scanner
    knows where a token begins and ends; the rules for spelling rewrite single
    characters, wherever they stand.

    They agree on every text that writes symbols.  Rewriting the characters of
    a spelling gives the ASCII spelling of its symbol (`respelt_spelling`), so
    the normal form of a text is made of the ASCII spellings of its symbols,
    one after another (`applyAll_written`).  This plain text writes the same
    symbols (`written_plain`), although nothing stands between them; and what
    writes symbols writes one sequence of them only, so no plain text belongs
    to two (`plain_injective`).

    **Main result** (`normalize_iff_symbols`).  The normal form of a text that is
    cut into tokens, in terms of the tokens.
-/

namespace TruthTables

-- ── One spelling for each symbol ──────────────────────────────────────────

namespace Symbol

/-- The spelling of a symbol in ASCII. -/
def ascii : Symbol → String
  | .letter c => String.singleton c
  | .lparen => "("
  | .rparen => ")"
  | .connective c => Glyphs.ascii.symbol c

theorem ascii_mem_spellings {s : Symbol} (h : ∀ c, s = letter c → isAtomLetter c = true) :
    s.ascii ∈ s.spellings := by
  cases s with
  | letter c => exact mem_spellings_letter.mpr ⟨h c rfl, rfl⟩
  | lparen => exact List.mem_singleton.mpr rfl
  | rparen => exact List.mem_singleton.mpr rfl
  | connective c => exact Glyphs.readable_ascii c

/-- The symbols in ASCII spelling, with nothing between them. -/
def plain (ss : List Symbol) : List Char := ss.flatMap fun s => s.ascii.toList

/-- The plain text writes the symbols. -/
theorem written_plain {ss : List Symbol}
    (h : ∀ c, letter c ∈ ss → isAtomLetter c = true) : Written (plain ss) ss := by
  induction ss with
  | nil => exact .nil
  | cons s ss ih =>
      have hs : ∀ c, s = letter c → isAtomLetter c = true := by
        rintro c rfl
        exact h c (List.mem_cons_self ..)
      have htail := ih fun c hc => h c (List.mem_cons_of_mem _ hc)
      exact .spelling (ascii_mem_spellings hs) htail

/-- Different symbols have different plain texts. -/
theorem plain_injective {ss ts : List Symbol} (hs : ∀ c, letter c ∈ ss → isAtomLetter c = true)
    (ht : ∀ c, letter c ∈ ts → isAtomLetter c = true) (h : plain ss = plain ts) : ss = ts := by
  have hw := written_plain hs
  rw [h] at hw
  exact hw.unique (written_plain ht)

theorem toList_join_ascii (ss : List Symbol) : (String.join (ss.map ascii)).toList = plain ss := by
  rw [String.toList_join, List.flatMap_map]
  rfl

end Symbol

-- ── The normal form of a written text ─────────────────────────────────────

namespace Spelling

/-- An ignored character vanishes. -/
theorem respell_ignored {c : Char} (h : Symbol.isIgnored c = true) : respell c = [] := by
  simp only [Symbol.isIgnored, Bool.or_eq_true, decide_eq_true_eq] at h
  rcases h with (rfl | rfl) | rfl <;> rfl

/-- A letter that names an atom is not respelt. -/
theorem respell_letter {c : Char} (h : Symbol.isAtomLetter c = true) : respell c = [c] := by
  have hblank : Text.isBlank c = false := by
    obtain ⟨hA, hZ, -⟩ := Symbol.isAtomLetter_iff.mp h
    have hlo : 65 ≤ c.toNat := hA
    have hhi : c.toNat ≤ 90 := hZ
    simp only [Text.isBlank, Text.inRanges, Text.blankRanges, List.any_cons, List.any_nil,
      Bool.or_eq_false_iff, Bool.and_eq_false_iff, decide_eq_false_iff_not, and_true]
    omega
  rw [respell, hblank, if_neg Bool.false_ne_true, Symbol.ofChar?_of_isAtomLetter h]

theorem respelt_connective : ∀ c : Connective, ∀ w ∈ c.spellings,
    w.toList.flatMap respell = (Glyphs.ascii.symbol c).toList
  | .not => by decide
  | .bin op => by cases op <;> decide

/-- Every spelling of a symbol becomes the one in ASCII. -/
theorem respelt_spelling {w : String} {s : Symbol} (h : w ∈ s.spellings) :
    w.toList.flatMap respell = s.ascii.toList := by
  cases s with
  | letter c =>
      obtain ⟨hc, rfl⟩ := Symbol.mem_spellings_letter.mp h
      rw [Symbol.ascii, String.toList_singleton, List.flatMap_singleton]
      exact respell_letter hc
  | lparen =>
      obtain rfl := List.mem_singleton.mp h
      rfl
  | rparen =>
      obtain rfl := List.mem_singleton.mp h
      rfl
  | connective c => exact respelt_connective c w h

/-- The normal form of a text depends on the symbols that it writes. -/
theorem applyAll_written {cs : List Char} {ss : List Symbol} (h : Written cs ss) :
    applyAll rules cs = Symbol.plain ss := by
  rw [perform_respell.applyAll_eq_flatMap]
  induction h with
  | nil => rfl
  | ignored hc _ ih => rw [List.flatMap_cons, respell_ignored hc, List.nil_append, ih]
  | spelling hw _ ih =>
      rw [List.flatMap_append, respelt_spelling hw, ih]
      rfl

/-- The normal form of a text has the symbols of the text, in ASCII spelling. -/
theorem normalize_written {text : String} {ss : List Symbol} (h : Written text.toList ss) :
    normalize text = String.join (ss.map Symbol.ascii) := by
  rw [← String.toList_inj, Symbol.toList_join_ascii, normalize, String.toList_ofList]
  exact applyAll_written h

/-- **The scanner and the rules agree.**  The normal form of a text that is cut into
    tokens is made of the ASCII spellings of their symbols, one after another.  It
    is cut into tokens with the same symbols; and texts that are cut into tokens
    have one normal form exactly when they have the same symbols. -/
theorem normalize_iff_symbols {text : String} {ts : List Token} (h : Token.scan text = .ok ts) :
    normalize text = String.join (ts.map fun t => t.symbol.ascii) ∧
      (∃ us, Token.scan (normalize text) = .ok us ∧
        us.map Token.symbol = ts.map Token.symbol) ∧
      ∀ text' ts', Token.scan text' = .ok ts' →
        (normalize text' = normalize text ↔ ts'.map Token.symbol = ts.map Token.symbol) := by
  have hw := Token.written_of_scanFrom h
  have hplain := normalize_written hw
  refine ⟨?_, ?_, fun text' ts' h' => ?_⟩
  · rw [hplain, List.map_map]
    rfl
  · have hwritten := Symbol.written_plain hw.isAtomLetter
    rw [← Symbol.toList_join_ascii, ← hplain] at hwritten
    exact Token.scanFrom_of_written hwritten 0
  · have hw' := Token.written_of_scanFrom h'
    rw [hplain, normalize_written hw', ← String.toList_inj, Symbol.toList_join_ascii,
      Symbol.toList_join_ascii]
    constructor
    · exact Symbol.plain_injective hw'.isAtomLetter hw.isAtomLetter
    · intro heq
      rw [heq]

/-- Both spellings of a connective, V for disjunction, and blanks of all three kinds:
    what is cut here into ten tokens is cut from "(P&Q)->~RvA" as well. -/
theorem normalize_iff_symbols_mixed : ∃ ts us,
    Token.scan "(P\t∧ Q)→ ¬R\nV A" = .ok ts ∧ ts.length = 10 ∧
      normalize "(P\t∧ Q)→ ¬R\nV A" = "(P&Q)->~RvA" ∧
      Token.scan "(P&Q)->~RvA" = .ok us ∧ us.map Token.symbol = ts.map Token.symbol := by
  obtain ⟨ts, hts⟩ : ∃ ts, Token.scan "(P\t∧ Q)→ ¬R\nV A" = .ok ts := ⟨_, rfl⟩
  obtain ⟨hnormal, ⟨us, hus, hsymbols⟩, -⟩ := normalize_iff_symbols hts
  have hlength : ts.length = 10 := by
    cases hts
    rfl
  have htext : normalize "(P\t∧ Q)→ ¬R\nV A" = "(P&Q)->~RvA" := by
    rw [hnormal]
    cases hts
    rfl
  rw [htext] at hus
  exact ⟨ts, us, hts, hlength, htext, hus, hsymbols⟩

end Spelling

end TruthTables
