import TruthTables.Proofs.Lexing
import TruthTables.Proofs.Tracking

/-!
# Refusals — a text that is no formula is refused at its first bad token

    Why a token is refused is told from notes on the tokens (`Tracking`).
    Here that is tied to the language.  A token sequence is read without
    complaint exactly when it is viable (`viable_iff_reads`), so the first token
    that is refused is the first one that no formula continues with.  At that
    point the reader has an operand exactly when the prefix ends in one
    (`isSome_operand_iff`), and the input could end there exactly when the
    prefix is a whole formula (`wellFormed_iff_finish`).  The notes follow the
    reader, so the three ways to refuse a token, and the three to refuse an
    end, say the true cause.
-/

namespace TruthTables.Parser

-- ── Read is viable ────────────────────────────────────────────────────────

/-- A run over two pieces is a run over each. -/
theorem reads_append_eq_some {s s' : State} {ts us : List Token}
    (h : s.reads (ts ++ us) = some s') : ∃ m, s.reads ts = some m ∧ m.reads us = some s' := by
  rw [State.reads, List.foldlM_append] at h
  exact Option.bind_eq_some_iff.mp h

/-- After an operand, closing parentheses lead to a whole formula.  Induction
    on the number of parentheses that are open. -/
theorem exists_reads_finish (ps : List Pending) (f : Formula) :
    ∃ us s g, State.reads ⟨ps, some f⟩ us = some s ∧ s.finish = some g := by
  induction hn : ps.count .paren generalizing ps f with
  | zero =>
      obtain ⟨g, hg⟩ := (exists_finish_iff ps f).mpr hn
      exact ⟨[], _, g, rfl, hg⟩
  | succ n ih =>
      rcases close_zero_cases ps f with ⟨g, hc⟩ | ⟨qs, g, hc⟩
      · rw [← count_paren_close 0 ps f, hc] at hn
        cases hn
      · rw [count_paren_of_close hc] at hn
        obtain ⟨us, s, g', hr, hg⟩ := ih qs g (Nat.succ.inj hn)
        have hread : State.read ⟨ps, some f⟩ ⟨.rparen, ")", 0⟩ = some ⟨qs, some g⟩ :=
          read_of_step (.rparen hc)
        exact ⟨⟨.rparen, ")", 0⟩ :: us, s, g', by rw [reads_cons hread, hr], hg⟩

/-- Whatever has been read can be continued to a whole formula. -/
theorem State.exists_reads_finish (s : State) :
    ∃ us s' g, s.reads us = some s' ∧ s'.finish = some g := by
  obtain ⟨ps, operand⟩ := s
  cases operand with
  | some f => exact Parser.exists_reads_finish ps f
  | none =>
      -- an operand is expected: an atom will do
      have hread : State.read ⟨ps, none⟩ ⟨.letter 'P', "P", 0⟩
          = some ⟨ps, some (.atom (String.singleton 'P') none)⟩ := read_of_step (.letter 'P')
      obtain ⟨us, s', g, hr, hg⟩ :=
        Parser.exists_reads_finish ps (.atom (String.singleton 'P') none)
      exact ⟨⟨.letter 'P', "P", 0⟩ :: us, s', g, by rw [reads_cons hread, hr], hg⟩

/-- Tokens are read without complaint exactly when they are viable. -/
theorem viable_iff_reads (ts : List Token) :
    Viable (ts.map Token.symbol) ↔ ∃ s, State.start.reads ts = some s := by
  constructor
  · rintro ⟨rest, f, hf⟩
    have hsym : ts.map Token.symbol ++ rest
        = (ts ++ rest.map fun x => (⟨x, "", 0⟩ : Token)).map Token.symbol := by
      rw [List.map_append, List.map_map]
      exact congrArg (ts.map Token.symbol ++ ·) (List.map_id rest).symm
    rw [hsym] at hf
    obtain ⟨s, hr, -⟩ := finish_of_derives _ hf
    obtain ⟨m, hm, -⟩ := reads_append_eq_some hr
    exact ⟨m, hm⟩
  · rintro ⟨s, hr⟩
    obtain ⟨us, s', g, hr', hg⟩ := s.exists_reads_finish
    refine ⟨us.map Token.symbol, g, ?_⟩
    rw [← List.map_append]
    exact (reads_finish_iff _ g).mp ⟨s', by rw [reads_append hr]; exact hr', hg⟩

/-- What has been read is a whole formula exactly when the end is accepted. -/
theorem wellFormed_iff_finish {ts : List Token} {s : State} (h : State.start.reads ts = some s) :
    WellFormed (ts.map Token.symbol) ↔ ∃ f, s.finish = some f := by
  constructor
  · rintro ⟨f, hf⟩
    obtain ⟨s', hr, hs'⟩ := finish_of_derives _ hf
    obtain rfl : s = s' := Option.some.inj (h.symm.trans hr)
    exact ⟨f, hs'⟩
  · rintro ⟨f, hf⟩
    exact ⟨f, (reads_finish_iff ts f).mp ⟨s, h, hf⟩⟩

-- ── What a state shows of its prefix ──────────────────────────────────────

/-- A state has an operand exactly when the symbol read last ends one. -/
theorem isSome_operand_of_step {s s' : State} {x : Symbol} (h : Step s x s') :
    s'.operand.isSome = endsOperand [x] := by
  cases h with
  | letter c => rfl
  | lparen => rfl
  | neg => rfl
  | bin op _ => rfl
  | rparen _ => rfl

theorem isSome_operand_iff {ts : List Token} {s : State} (h : State.start.reads ts = some s) :
    s.operand.isSome = endsOperand (ts.map Token.symbol) := by
  rcases List.eq_nil_or_concat ts with rfl | ⟨us, t, rfl⟩
  · cases h
    rfl
  · rw [List.concat_eq_append] at h ⊢
    obtain ⟨m, -, ht⟩ := reads_append_eq_some h
    cases hread : m.read t with
    | none =>
        simp only [State.reads, List.foldlM_cons, hread] at ht
        cases ht
    | some m' =>
        rw [reads_cons hread] at ht
        cases ht
        rw [isSome_operand_of_step (step_of_read hread), List.map_append, List.map_singleton,
          endsOperand_concat]

/-- A token that is refused ends the longest viable prefix. -/
theorem longestViable_of_refused {ts : List Token} {k : Nat} {m : State} {t : Token}
    (hk : ts[k]? = some t) (hm : State.start.reads (ts.take k) = some m)
    (he : m.read t = none) : LongestViable (ts.map Token.symbol) k := by
  have hlt : k < ts.length := (List.getElem?_eq_some_iff.mp hk).1
  refine ⟨?_, ?_, ?_⟩
  · rw [List.length_map]
    exact Nat.le_of_lt hlt
  · rw [← List.map_take]
    exact (viable_iff_reads _).mpr ⟨m, hm⟩
  · intro j _ hj
    rw [← List.map_take] at hj
    obtain ⟨s, hs⟩ := (viable_iff_reads _).mp hj
    refine Nat.le_of_not_lt fun hkj => ?_
    -- a longer prefix would have to read past the refused token
    have hsplit : ts.take j = ts.take k ++ t :: (ts.take j).drop (k + 1) := by
      have htake : (ts.take j).take k = ts.take k := by
        rw [List.take_take, Nat.min_eq_left (Nat.le_of_lt hkj)]
      have hget : (ts.take j)[k]? = some t := by
        rw [List.getElem?_take_of_lt hkj, hk]
      obtain ⟨hkl, hkt⟩ := List.getElem?_eq_some_iff.mp hget
      rw [← htake, ← hkt, ← List.drop_eq_getElem_cons hkl, List.take_append_drop]
    rw [hsplit, reads_append hm] at hs
    simp only [State.reads, List.foldlM_cons, he] at hs
    cases hs

/-- Tokens that are all read are viable as a whole. -/
theorem longestViable_length {ts : List Token} {s : State}
    (h : State.start.reads ts = some s) : LongestViable (ts.map Token.symbol) ts.length := by
  refine ⟨?_, ?_, ?_⟩
  · exact Nat.le_of_eq (List.length_map _).symm
  · rw [← List.map_take, List.take_length]
    exact (viable_iff_reads _).mpr ⟨s, h⟩
  · intro j hj _
    rw [List.length_map] at hj
    exact hj

end TruthTables.Parser

namespace TruthTables

-- ── The messages ──────────────────────────────────────────────────────────

/-- What the symbols are called when they are refused. -/
inductive Symbol.Called : Symbol → String → Prop where
  | letter (c : Char) : Called (.letter c) "VAR"
  | lparen : Called .lparen "LPAREN"
  | rparen : Called .rparen "RPAREN"
  | not : Called (.connective .not) "NOT"
  | and : Called (.connective (.bin .and)) "AND"
  | or : Called (.connective (.bin .or)) "OR"
  | imp : Called (.connective (.bin .imp)) "IMP"
  | bicond : Called (.connective (.bin .bicond)) "BICOND"

/-- The keyword of a symbol is what it is called. -/
theorem Symbol.called_keyword : ∀ x : Symbol, x.Called x.keyword
  | .letter c => .letter c
  | .lparen => .lparen
  | .rparen => .rparen
  | .connective .not => .not
  | .connective (.bin .and) => .and
  | .connective (.bin .or) => .or
  | .connective (.bin .imp) => .imp
  | .connective (.bin .bicond) => .bicond

namespace ParseError

/-- Texts that begin differently are different, however they go on. -/
theorem append_ne_append {a b : String} (i : Nat) (x y : String)
    (ha : i < a.toList.length) (hb : i < b.toList.length) (h : a.toList[i] ≠ b.toList[i]) :
    a ++ x ≠ b ++ y := by
  intro heq
  have hl := congrArg (fun s => s.toList[i]?) heq
  simp only [String.toList_append] at hl
  rw [List.getElem?_append_left ha, List.getElem?_append_left hb,
    List.getElem?_eq_getElem ha, List.getElem?_eq_getElem hb] at hl
  exact h (Option.some.inj hl)

theorem message_trailing (t : Token) : (trailing t).message =
    "Unexpected trailing input '" ++ t.spelling ++ "' at position " ++ toString t.position := rfl

theorem message_unclosedBefore (t : Token) : (unclosedBefore t).message =
    "Missing closing parenthesis before '" ++ t.spelling ++ "' at position " ++
      toString t.position := rfl

theorem message_unexpected (t : Token) : (unexpected t).message =
    "Unexpected token " ++ t.symbol.keyword ++ " ('" ++ t.spelling ++ "') at position " ++
      toString t.position := rfl

theorem message_trailing_ne_unclosedBefore (t : Token) :
    (trailing t).message ≠ (unclosedBefore t).message := by
  rw [message_trailing, message_unclosedBefore]
  simp only [String.append_assoc]
  exact append_ne_append 0 _ _ (by decide) (by decide) (by decide)

theorem message_trailing_ne_unexpected (t : Token) :
    (trailing t).message ≠ (unexpected t).message := by
  rw [message_trailing, message_unexpected]
  simp only [String.append_assoc]
  exact append_ne_append 12 _ _ (by decide) (by decide) (by decide)

theorem message_unclosedBefore_ne_unexpected (t : Token) :
    (unclosedBefore t).message ≠ (unexpected t).message := by
  rw [message_unclosedBefore, message_unexpected]
  simp only [String.append_assoc]
  exact append_ne_append 0 _ _ (by decide) (by decide) (by decide)

end ParseError

namespace Formula

/-- What is told of the end of tokens that have all been read. -/
theorem message_of_end {ts : List Token} {k : Parser.Track} {s : Parser.State}
    (hk : k.Follows s) (h : Parser.State.start.reads ts = some s) (he : s.finish = none) :
    (k.explain none).message =
      if endsOperand (ts.map Token.symbol) then "Missing closing parenthesis"
      else "Unexpected end of input" := by
  rw [hk.explain_end he, Parser.isSome_operand_iff h]
  split <;> rfl

/-- What is told of a token that is refused behind a prefix that was read tells
    what the prefix is. -/
theorem message_of_refused {front : List Token} {k : Parser.Track} {s : Parser.State} {t : Token}
    (hk : k.Follows s) (h : Parser.State.start.reads front = some s) (he : s.read t = none) :
    let symbols := front.map Token.symbol
    let message := ((k.pull t).explain (some t)).message
    (message = (ParseError.trailing t).message ↔ WellFormed symbols) ∧
      (message = (ParseError.unclosedBefore t).message ↔
        endsOperand symbols = true ∧ ¬ WellFormed symbols) ∧
      (message = (ParseError.unexpected t).message ↔
        ¬ WellFormed symbols ∧ ¬ (endsOperand symbols = true ∧ ¬ WellFormed symbols)) := by
  intro symbols message
  have hwhole : WellFormed symbols ↔ ∃ g, s.finish = some g := Parser.wellFormed_iff_finish h
  have hends : s.operand.isSome = endsOperand symbols := Parser.isSome_operand_iff h
  have h₁ := ParseError.message_trailing_ne_unclosedBefore t
  have h₂ := ParseError.message_trailing_ne_unexpected t
  have h₃ := ParseError.message_unclosedBefore_ne_unexpected t
  rw [hwhole, ← hends]
  rcases hk.explain_token he with ⟨hop, hcause⟩ | ⟨hop, hfin, hcause⟩ | ⟨hop, hfin, hcause⟩
  · -- without an operand the prefix is no whole formula either
    have hno : ¬ ∃ g, s.finish = some g := by
      rintro ⟨g, hg⟩
      simp only [Parser.State.finish, hop] at hg
      cases hg
    simp [message, hcause, hop, hno, h₂.symm, h₃.symm]
  · simp [message, hcause, hop, hfin, h₁, h₂]
  · simp [message, hcause, hop, hfin, h₁.symm, h₃]

/-- **A refusal names the true cause at the first bad token.**  Let `k` be the
    length of the longest viable prefix of the tokens of a text that spells no
    formula.  If it is all of them, the end is refused: as empty, inside a
    parenthesis after an operand, or where an operand is wanted.  Otherwise
    the token behind it is refused, with its spelling and position in the
    text: as trailing exactly when the prefix is a whole formula, as standing
    before a missing parenthesis exactly when the prefix ends in an operand
    but is no whole formula, and else as unexpected, by what it is called. -/
theorem ofText_names_first_bad_token (text : String) (ts : List Token)
    (h : Token.scan text = .ok ts) (hbad : ¬ WellFormed (ts.map Token.symbol)) :
    ∃ (k : Nat) (e : ParseError),
      LongestViable (ts.map Token.symbol) k ∧ ofText text = .error (.parse e) ∧
      (k = ts.length → e.message =
        if ts = [] then "Unexpected end of input: formula is empty"
        else if endsOperand (ts.map Token.symbol) then "Missing closing parenthesis"
        else "Unexpected end of input") ∧
      ∀ t, ts[k]? = some t →
        let front := (ts.take k).map Token.symbol
        (∃ rest, text.toList.drop t.position = t.spelling.toList ++ rest ∧
          Token.scanFrom (t.position + t.spelling.length) rest = .ok (ts.drop (k + 1))) ∧
        (e.message = "Unexpected trailing input '" ++ t.spelling ++ "' at position " ++
            toString t.position ↔ WellFormed front) ∧
        (e.message = "Missing closing parenthesis before '" ++ t.spelling ++
            "' at position " ++ toString t.position ↔
          endsOperand front = true ∧ ¬ WellFormed front) ∧
        ∃ kind, t.symbol.Called kind ∧
          (e.message = "Unexpected token " ++ kind ++ " ('" ++ t.spelling ++ "') at position " ++
              toString t.position ↔
            ¬ WellFormed front ∧ ¬ (endsOperand front = true ∧ ¬ WellFormed front)) := by
  rw [ofText_of_scan h, ofTokens]
  cases hr : Parser.readAll Parser.State.read Parser.State.finish .start ts with
  | ok f =>
      have hwhole := (Parser.reads_finish_iff ts f).mp (Parser.readAll_eq_ok_iff.mp hr)
      exact absurd ⟨f, hwhole⟩ hbad
  | error e =>
      rw [Parser.readAll] at hr
      split at hr
      · rename_i hts
        subst hts
        cases hr
        refine ⟨0, .empty, Parser.longestViable_length (s := .start) rfl, rfl, fun _ => rfl, ?_⟩
        intro t ht
        cases ht
      · rename_i hts
        rcases Parser.follow_eq_error Parser.Track.follows_start hr with
          ⟨k, s, hk, hs, hend, rfl⟩ | ⟨i, k, s, u, hk, hu, hs, hread, rfl⟩
        · refine ⟨ts.length, _, Parser.longestViable_length hs, rfl, fun _ => ?_, fun t ht => ?_⟩
          · rw [if_neg hts, message_of_end hk hs hend]
          · rw [List.getElem?_eq_none (Nat.le_refl _)] at ht
            cases ht
        · have hlt : i < ts.length := (List.getElem?_eq_some_iff.mp hu).1
          refine ⟨i, _, Parser.longestViable_of_refused hu hs hread, rfl, fun heq => ?_,
            fun t ht => ?_⟩
          · omega
          · obtain rfl : u = t := Option.some.inj (hu.symm.trans ht)
            obtain ⟨htrailing, hunclosed, hunexpected⟩ := message_of_refused hk hs hread
            exact ⟨Token.scan_getElem? h hu, htrailing, hunclosed, _, u.symbol.called_keyword,
              hunexpected⟩

/-- In "(P Q" the second atom is refused, since the parenthesis in front of it
    is still open. -/
theorem ofText_names_open_paren :
    ∃ ts, Token.scan "(P Q" = .ok ts ∧ ¬ WellFormed (ts.map Token.symbol) ∧
      ∃ k e, LongestViable (ts.map Token.symbol) k ∧ ofText "(P Q" = .error (.parse e) ∧
        e.message = "Missing closing parenthesis before 'Q' at position 3" := by
  refine ⟨[⟨.lparen, "(", 0⟩, ⟨.letter 'P', "P", 1⟩, ⟨.letter 'Q', "Q", 3⟩], rfl, ?_⟩
  have hbad : ¬ WellFormed [.lparen, .letter 'P', .letter 'Q'] := by
    rintro ⟨f, hf⟩
    obtain ⟨s, hr, -⟩ := Parser.finish_of_derives
      [⟨.lparen, "(", 0⟩, ⟨.letter 'P', "P", 1⟩, ⟨.letter 'Q', "Q", 3⟩] hf
    cases hr
  refine ⟨hbad, ?_⟩
  obtain ⟨k, e, hk, he, -, -⟩ := ofText_names_first_bad_token "(P Q" _ rfl hbad
  refine ⟨k, e, hk, he, ?_⟩
  cases he
  decide

end Formula

end TruthTables
