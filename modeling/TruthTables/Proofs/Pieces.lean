import TruthTables.Formula.Parser
import TruthTables.Proofs.Spelling

/-!
# Pieces — how a text falls apart, and where it stops doing so

    A text that can be cut into tokens is put together from pieces: ignored
    characters, and spellings of symbols.  `Piece` lists them without saying
    how to look for them, and a list of pieces says which tokens it holds and
    where each of them stands (`Piece.tokensFrom`).

    The first character of a piece gives the piece away (`begun_of_head`),
    although one spelling stands inside another.  So a text falls apart in one
    way only (`Piece.join_injective`), and the scanner finds it.  Where the
    scanner stops, the text in front is the longest beginning that falls apart
    at all (`longestLexable_of_stuckAt`).
-/

namespace TruthTables

/-- A piece of a text: an ignored character, or a spelling of a symbol. -/
inductive Piece where
  | ignored (c : Char) (isIgnored : Symbol.isIgnored c = true)
  | spelling (s : Symbol) (w : String) (mem_spellings : w ∈ s.spellings)

namespace Piece

/-- The characters of a piece. -/
def chars : Piece → List Char
  | .ignored c _ => [c]
  | .spelling _ w _ => w.toList

/-- The symbol that a piece spells, if it is no ignored character. -/
def symbol? : Piece → Option Symbol
  | .ignored .. => none
  | .spelling s _ _ => some s

/-- Pieces side by side. -/
def join (ps : List Piece) : List Char := ps.flatMap chars

/-- The tokens of pieces side by side, the first piece at `start`. -/
def tokensFrom (start : Nat) : List Piece → List Token
  | [] => []
  | .ignored .. :: ps => tokensFrom (start + 1) ps
  | .spelling s w _ :: ps => ⟨s, w, start⟩ :: tokensFrom (start + w.length) ps

@[simp] theorem join_cons (p : Piece) (ps : List Piece) : join (p :: ps) = p.chars ++ join ps := rfl

/-- The tokens carry the symbols that are spelt, in order. -/
theorem map_symbol_tokensFrom (ps : List Piece) :
    ∀ start : Nat, (tokensFrom start ps).map Token.symbol = ps.filterMap symbol? := by
  induction ps with
  | nil =>
      intro start
      rfl
  | cons p ps ih =>
      intro start
      cases p with
      | ignored c hc => exact ih (start + 1)
      | spelling s w hw => exact congrArg (s :: ·) (ih (start + w.length))

-- ── One way to fall apart ─────────────────────────────────────────────────

/-- The piece that begins with a character, by its characters and its symbol. -/
def begun (c : Char) : List Char × Option Symbol :=
  if c = '<' then ("<->".toList, some (.connective (.bin .bicond)))
  else if c = '-' then ("->".toList, some (.connective (.bin .imp)))
  else ([c], Symbol.ofChar? c)

theorem ofChar?_of_isIgnored {c : Char} (h : Symbol.isIgnored c = true) :
    Symbol.ofChar? c = none := by
  cases hc : Symbol.ofChar? c with
  | none => rfl
  | some s =>
      rw [Symbol.isIgnored_of_ofChar? hc] at h
      cases h

theorem begun_of_ne {c : Char} (hlt : c ≠ '<') (hdash : c ≠ '-') :
    begun c = ([c], Symbol.ofChar? c) := by
  rw [begun, if_neg hlt, if_neg hdash]

/-- A piece is the one that begins with its first character. -/
theorem begun_of_head (p : Piece) : ∃ c cs, p.chars = c :: cs ∧ begun c = (p.chars, p.symbol?) := by
  cases p with
  | ignored c hc =>
      have hlt : c ≠ '<' := by
        rintro rfl
        cases hc
      have hdash : c ≠ '-' := by
        rintro rfl
        cases hc
      refine ⟨c, [], rfl, ?_⟩
      rw [begun_of_ne hlt hdash, ofChar?_of_isIgnored hc]
      rfl
  | spelling s w hw =>
      rcases Symbol.mem_spellings_cases hw with ⟨rfl, rfl⟩ | ⟨rfl, rfl⟩ | ⟨c, rfl, hc⟩
      · exact ⟨'<', ['-', '>'], rfl, rfl⟩
      · exact ⟨'-', ['>'], rfl, rfl⟩
      · have hlt : c ≠ '<' := by
          rintro rfl
          cases hc
        have hdash : c ≠ '-' := by
          rintro rfl
          cases hc
        refine ⟨c, [], String.toList_singleton c, ?_⟩
        rw [begun_of_ne hlt hdash, hc, chars, String.toList_singleton]
        rfl

theorem chars_ne_nil (p : Piece) : p.chars ≠ [] := by
  obtain ⟨c, cs, hcs, -⟩ := p.begun_of_head
  rw [hcs]
  exact List.cons_ne_nil c cs

/-- Characters and symbol make the piece. -/
theorem eq_of_chars_of_symbol? {p q : Piece} (hchars : p.chars = q.chars)
    (hsymbol : p.symbol? = q.symbol?) : p = q := by
  cases p with
  | ignored c hc =>
      cases q with
      | ignored d hd =>
          obtain rfl : c = d := List.singleton_inj.mp hchars
          rfl
      | spelling s w hw => cases hsymbol
  | spelling s w hw =>
      cases q with
      | ignored d hd => cases hsymbol
      | spelling s' w' hw' =>
          obtain rfl : s = s' := Option.some.inj hsymbol
          obtain rfl : w = w' := String.toList_inj.mp hchars
          rfl

/-- Two pieces in front of one text are the same. -/
theorem eq_of_append {p q : Piece} {cs ds : List Char} (h : p.chars ++ cs = q.chars ++ ds) :
    p = q := by
  obtain ⟨c, ps, hp, hbegun⟩ := p.begun_of_head
  obtain ⟨d, qs, hq, hbegun'⟩ := q.begun_of_head
  rw [hp, hq, List.cons_append, List.cons_append] at h
  obtain rfl : c = d := (List.cons.inj h).1
  obtain ⟨hchars, hsymbol⟩ := Prod.mk.inj (hbegun.symm.trans hbegun')
  exact eq_of_chars_of_symbol? hchars hsymbol

/-- A text falls apart in one way at most. -/
theorem join_injective : ∀ {ps qs : List Piece}, join ps = join qs → ps = qs := by
  intro ps
  induction ps with
  | nil =>
      intro qs h
      cases qs with
      | nil => rfl
      | cons q qs => exact absurd (List.append_eq_nil_iff.mp h.symm).1 q.chars_ne_nil
  | cons p ps ih =>
      intro qs h
      cases qs with
      | nil => exact absurd (List.append_eq_nil_iff.mp h).1 p.chars_ne_nil
      | cons q qs =>
          rw [join_cons, join_cons] at h
          obtain rfl := eq_of_append h
          rw [ih (List.append_cancel_left h)]

end Piece

-- ── What the scanner makes of pieces ──────────────────────────────────────

/-- The characters fall apart into pieces. -/
def Lexable (cs : List Char) : Prop := ∃ ps, Piece.join ps = cs

/-- `i` is the length of the longest beginning that falls apart into pieces. -/
structure LongestLexable (cs : List Char) (i : Nat) : Prop where
  le_length : i ≤ cs.length
  lexable : Lexable (cs.take i)
  longest : ∀ j, j ≤ cs.length → Lexable (cs.take j) → j ≤ i

namespace Token

/-- The scanner takes the pieces in front, and goes on behind them. -/
theorem scanFrom_join_append (ps : List Piece) :
    ∀ (start : Nat) (cs : List Char), scanFrom start (Piece.join ps ++ cs) =
      (scanFrom (start + (Piece.join ps).length) cs).map (Piece.tokensFrom start ps ++ ·) := by
  induction ps with
  | nil =>
      intro start cs
      show scanFrom start cs = (scanFrom start cs).map fun ts => ts
      cases scanFrom start cs <;> rfl
  | cons p ps ih =>
      intro start cs
      rw [Piece.join_cons, List.append_assoc, List.length_append, ← Nat.add_assoc]
      cases p with
      | ignored c hc =>
          show scanFrom start (c :: (Piece.join ps ++ cs)) = _
          rw [scanFrom_ignored hc, ih]
          rfl
      | spelling s w hw =>
          show scanFrom start (w.toList ++ (Piece.join ps ++ cs)) = _
          rw [scanFrom_spelling hw, ih]
          show _ = (scanFrom (start + w.toList.length + (Piece.join ps).length) cs).map _
          rw [String.length_toList]
          cases scanFrom (start + w.length + (Piece.join ps).length) cs <;> rfl

/-- Pieces side by side are cut into their tokens. -/
theorem scanFrom_join (start : Nat) (ps : List Piece) :
    scanFrom start (Piece.join ps) = .ok (Piece.tokensFrom start ps) := by
  have h := scanFrom_join_append ps start []
  rw [List.append_nil, scanFrom, Except.map, List.append_nil] at h
  exact h

/-- The character begins no piece: the scanner stops right there. -/
def StuckAt (c : Char) (rest : List Char) : Prop :=
  ∀ start, scanFrom start (c :: rest) = .error ⟨c, start⟩

/-- A text falls apart into pieces, or some pieces stand in front of a character
    at which the scanner is stuck. -/
theorem lexable_or_stuckAt (cs : List Char) :
    Lexable cs ∨ ∃ ps c rest, cs = Piece.join ps ++ c :: rest ∧ StuckAt c rest := by
  -- a piece in front changes nothing about that
  have hpiece : ∀ (p : Piece) {ds : List Char},
      (Lexable ds ∨ ∃ ps c rest, ds = Piece.join ps ++ c :: rest ∧ StuckAt c rest) →
        Lexable (p.chars ++ ds) ∨
          ∃ ps c rest, p.chars ++ ds = Piece.join ps ++ c :: rest ∧ StuckAt c rest := by
    rintro p ds (⟨ps, rfl⟩ | ⟨ps, c, rest, rfl, hstuck⟩)
    · exact .inl ⟨p :: ps, rfl⟩
    · exact .inr ⟨p :: ps, c, rest, by rw [Piece.join_cons, List.append_assoc], hstuck⟩
  fun_induction scanFrom 0 cs with
  | case1 start => exact .inl ⟨[], rfl⟩
  | case2 start cs ih => exact hpiece (.spelling (.connective (.bin .bicond)) "<->" (by decide)) ih
  | case3 start cs ih => exact hpiece (.spelling (.connective (.bin .imp)) "->" (by decide)) ih
  | case4 start c cs _ _ hc ih => exact hpiece (.ignored c hc) ih
  | case5 start c cs _ _ _ s hs ih =>
      have hw := hpiece (.spelling s (String.singleton c) (Symbol.singleton_mem_spellings hs)) ih
      rwa [Piece.chars, String.toList_singleton] at hw
  | case6 start c cs hbicond himp hignored hnone =>
      refine .inr ⟨[], c, cs, rfl, fun start => ?_⟩
      rw [scanFrom.eq_4 start c cs hbicond himp, if_neg hignored, hnone]

/-- Behind pieces, the scanner is stuck at the same character. -/
theorem scanFrom_join_append_of_stuckAt {c : Char} {rest : List Char} (h : StuckAt c rest)
    (start : Nat) (ps : List Piece) : scanFrom start (Piece.join ps ++ c :: rest) =
      .error ⟨c, start + (Piece.join ps).length⟩ := by
  rw [scanFrom_join_append, h]
  rfl

/-- The place that the scanner reports is behind the pieces in front. -/
theorem start_le_position {start : Nat} {cs : List Char} {e : LexError}
    (h : scanFrom start cs = .error e) : start ≤ e.position := by
  rcases lexable_or_stuckAt cs with ⟨ps, rfl⟩ | ⟨ps, c, rest, rfl, hstuck⟩
  · rw [scanFrom_join] at h
    cases h
  · rw [scanFrom_join_append_of_stuckAt hstuck] at h
    cases h
    exact Nat.le_add_right _ _

/-- The pieces in front of the place where the scanner is stuck are the longest
    beginning that falls apart: behind a longer one it would report a later place. -/
theorem longestLexable_of_stuckAt {c : Char} {rest : List Char} (h : StuckAt c rest)
    (ps : List Piece) :
    LongestLexable (Piece.join ps ++ c :: rest) (Piece.join ps).length where
  le_length := by
    rw [List.length_append]
    exact Nat.le_add_right _ _
  lexable := ⟨ps, List.take_left.symm⟩
  longest := by
    rintro j hj ⟨qs, hqs⟩
    have hlength : (Piece.join qs).length = j := by
      rw [hqs, List.length_take, Nat.min_eq_left hj]
    have hscan := scanFrom_join_append_of_stuckAt h 0 ps
    rw [← List.take_append_drop j (Piece.join ps ++ c :: rest), ← hqs, scanFrom_join_append,
      hlength, Nat.zero_add, Nat.zero_add] at hscan
    cases hrest : scanFrom j ((Piece.join ps ++ c :: rest).drop j) with
    | ok ts =>
        rw [hrest] at hscan
        cases hscan
    | error e =>
        rw [hrest] at hscan
        obtain rfl := Except.error.inj hscan
        exact start_le_position hrest

/-- A text is cut into tokens exactly when it falls apart into pieces, and then
    into the tokens of the pieces. -/
theorem scan_eq_ok_iff {text : String} {ts : List Token} :
    scan text = .ok ts ↔ ∃ ps, Piece.join ps = text.toList ∧ ts = Piece.tokensFrom 0 ps := by
  rw [scan]
  constructor
  · intro h
    rcases lexable_or_stuckAt text.toList with ⟨ps, htext⟩ | ⟨ps, c, rest, htext, hstuck⟩
    · rw [← htext, scanFrom_join] at h
      exact ⟨ps, htext, (Except.ok.inj h).symm⟩
    · rw [htext, scanFrom_join_append_of_stuckAt hstuck] at h
      cases h
  · rintro ⟨ps, htext, rfl⟩
    rw [← htext, scanFrom_join]

/-- **A text is cut at its pieces.**  It is cut into tokens exactly when it is put
    together from ignored characters and spellings of symbols, whatever stands
    next to each other; this can be done in one way, and the tokens are those
    of its pieces, in order.  Otherwise the first character behind the longest
    beginning that is put together so is refused with its position, also by
    whoever wants the formula, and whatever the tokens in front are. -/
theorem scan_iff_pieces (text : String) :
    (∀ ts, scan text = .ok ts ↔
        ∃ ps, Piece.join ps = text.toList ∧ ts = Piece.tokensFrom 0 ps) ∧
      (∀ ps, Piece.join ps = text.toList →
        (Piece.tokensFrom 0 ps).map Token.symbol = ps.filterMap Piece.symbol? ∧
          ∀ qs, Piece.join qs = text.toList → qs = ps) ∧
      (¬ Lexable text.toList → ∃ i c, LongestLexable text.toList i ∧ text.toList[i]? = some c ∧
        scan text = .error ⟨c, i⟩ ∧ Formula.ofText text = .error (.lex ⟨c, i⟩) ∧
        (ReadError.lex ⟨c, i⟩).message =
          "Unexpected character '" ++ String.singleton c ++ "' at position " ++ toString i) := by
  refine ⟨fun ts => scan_eq_ok_iff, ?_, ?_⟩
  · intro ps hps
    refine ⟨Piece.map_symbol_tokensFrom ps 0, fun qs hqs => ?_⟩
    exact Piece.join_injective (hqs.trans hps.symm)
  · intro hno
    obtain ⟨ps, c, rest, htext, hstuck⟩ := (lexable_or_stuckAt text.toList).resolve_left hno
    have hscan : scan text = .error ⟨c, (Piece.join ps).length⟩ := by
      rw [scan, htext, scanFrom_join_append_of_stuckAt hstuck, Nat.zero_add]
    refine ⟨(Piece.join ps).length, c, ?_, ?_, hscan, ?_, rfl⟩
    · rw [htext]
      exact longestLexable_of_stuckAt hstuck ps
    · rw [htext, List.getElem?_append_right (Nat.le_refl _), Nat.sub_self]
      rfl
    · rw [Formula.ofText, hscan]
      rfl

/-- A half-written connective is refused, although a token in front of it is
    already out of place. -/
example : Formula.ofText "& P <-> Q <- R" = .error (.lex ⟨'<', 10⟩) := rfl

end Token

end TruthTables
