import TruthTables.Proofs.Lexing

/-!
# Spelling — which texts write which symbols

    Every symbol has its spellings, and a text writes a sequence of symbols
    when it puts a spelling of each in order, with ignored characters before,
    between and behind them or with none at all.  `Written` says this without
    a scanner: it tries nothing in any order.

    The scanner finds what is written (`scanFrom_of_written`) and nothing else
    (`written_of_scanFrom`).  So a text writes one sequence of symbols at most
    (`Written.unique`), although spellings run into each other: "->" stands
    inside "<->", and V among the letters.
-/

namespace TruthTables

-- ── The spellings of a symbol ─────────────────────────────────────────────

/-- The ways to write a connective. -/
def Connective.spellings : Connective → List String
  | .not => ["~", "¬"]
  | .bin .and => ["&", "∧"]
  | .bin .or => ["v", "V", "∨"]
  | .bin .imp => ["->", "→"]
  | .bin .bicond => ["<->", "↔"]

namespace Symbol

/-- The ways to write a symbol.  V stands for a connective and no atom. -/
def spellings : Symbol → List String
  | .letter c => if 'A' ≤ c ∧ c ≤ 'Z' ∧ c ≠ 'V' then [String.singleton c] else []
  | .lparen => ["("]
  | .rparen => [")"]
  | .connective c => c.spellings

theorem isAtomLetter_iff {c : Char} : isAtomLetter c = true ↔ 'A' ≤ c ∧ c ≤ 'Z' ∧ c ≠ 'V' := by
  simp only [isAtomLetter, Bool.and_eq_true, decide_eq_true_eq, and_assoc]

theorem mem_spellings_letter {c : Char} {w : String} :
    w ∈ (letter c).spellings ↔ isAtomLetter c = true ∧ w = String.singleton c := by
  rw [isAtomLetter_iff, spellings]
  by_cases hc : 'A' ≤ c ∧ c ≤ 'Z' ∧ c ≠ 'V'
  · rw [if_pos hc, List.mem_singleton]
    exact (and_iff_right hc).symm
  · rw [if_neg hc]
    exact iff_of_false List.not_mem_nil fun h => hc h.1

theorem ofChar?_of_isAtomLetter {c : Char} (h : isAtomLetter c = true) :
    ofChar? c = some (.letter c) := by
  unfold ofChar?
  split
  case h_12 => exact if_pos h
  all_goals exact absurd h (by decide)

/-- A character that is read as a symbol by itself is one of its spellings. -/
theorem singleton_mem_spellings {c : Char} {s : Symbol} (h : ofChar? c = some s) :
    String.singleton c ∈ s.spellings := by
  unfold ofChar? at h
  split at h
  case h_12 =>
    split at h
    case isTrue hc =>
      cases h
      exact mem_spellings_letter.mpr ⟨hc, rfl⟩
    case isFalse => cases h
  all_goals
    cases h
    decide

/-- Two connectives have a spelling of several characters each; every other
    spelling is one character that is read as the symbol. -/
theorem mem_spellings_cases {w : String} {s : Symbol} (h : w ∈ s.spellings) :
    (w = "<->" ∧ s = .connective (.bin .bicond)) ∨ (w = "->" ∧ s = .connective (.bin .imp)) ∨
      ∃ c, w = String.singleton c ∧ ofChar? c = some s := by
  match s with
  | .letter c =>
      obtain ⟨hc, hw⟩ := mem_spellings_letter.mp h
      exact .inr (.inr ⟨c, hw, ofChar?_of_isAtomLetter hc⟩)
  | .lparen => exact .inr (.inr ⟨'(', List.mem_singleton.mp h, rfl⟩)
  | .rparen => exact .inr (.inr ⟨')', List.mem_singleton.mp h, rfl⟩)
  | .connective c =>
      simp only [spellings] at h
      cases c with
      | not =>
          simp only [Connective.spellings, List.mem_cons, List.not_mem_nil, or_false] at h
          rcases h with hw | hw
          · exact .inr (.inr ⟨'~', hw, rfl⟩)
          · exact .inr (.inr ⟨'¬', hw, rfl⟩)
      | bin op =>
          cases op <;>
            simp only [Connective.spellings, List.mem_cons, List.not_mem_nil, or_false] at h
          case and =>
            rcases h with hw | hw
            · exact .inr (.inr ⟨'&', hw, rfl⟩)
            · exact .inr (.inr ⟨'∧', hw, rfl⟩)
          case or =>
            rcases h with hw | hw | hw
            · exact .inr (.inr ⟨'v', hw, rfl⟩)
            · exact .inr (.inr ⟨'V', hw, rfl⟩)
            · exact .inr (.inr ⟨'∨', hw, rfl⟩)
          case imp =>
            rcases h with hw | hw
            · exact .inr (.inl ⟨hw, rfl⟩)
            · exact .inr (.inr ⟨'→', hw, rfl⟩)
          case bicond =>
            rcases h with hw | hw
            · exact .inl ⟨hw, rfl⟩
            · exact .inr (.inr ⟨'↔', hw, rfl⟩)

/-- No symbol is spelt with an ignored character. -/
theorem isIgnored_of_ofChar? {c : Char} {s : Symbol} (h : ofChar? c = some s) :
    isIgnored c = false := by
  cases hc : isIgnored c with
  | false => rfl
  | true =>
      simp only [isIgnored, Bool.or_eq_true, decide_eq_true_eq] at hc
      rcases hc with (rfl | rfl) | rfl <;> cases h

end Symbol

-- ── Written texts ─────────────────────────────────────────────────────────

/-- The characters write the symbols: spellings of them in order, with ignored
    characters anywhere in front, between and behind. -/
inductive Written : List Char → List Symbol → Prop where
  | nil : Written [] []
  | ignored {c : Char} {cs : List Char} {ss : List Symbol} :
      Symbol.isIgnored c = true → Written cs ss → Written (c :: cs) ss
  | spelling {w : String} {s : Symbol} {cs : List Char} {ss : List Symbol} :
      w ∈ s.spellings → Written cs ss → Written (w.toList ++ cs) (s :: ss)

namespace Written

/-- Texts side by side write their symbols side by side. -/
theorem append {cs ds : List Char} {ss ts : List Symbol} (h : Written cs ss)
    (h' : Written ds ts) : Written (cs ++ ds) (ss ++ ts) := by
  induction h with
  | nil => exact h'
  | ignored hc _ ih => exact .ignored hc ih
  | spelling hw _ ih =>
      rw [List.append_assoc]
      exact .spelling hw ih

theorem single {w : String} {s : Symbol} (h : w ∈ s.spellings) : Written w.toList [s] := by
  have hw := Written.spelling h .nil
  rwa [List.append_nil] at hw

/-- The letters that are written are names of atoms. -/
theorem isAtomLetter {cs : List Char} {ss : List Symbol} (h : Written cs ss) (c : Char)
    (hc : Symbol.letter c ∈ ss) : Symbol.isAtomLetter c = true := by
  induction h with
  | nil => cases hc
  | ignored _ _ ih => exact ih hc
  | spelling hw _ ih =>
      rcases List.mem_cons.mp hc with rfl | hc
      · exact (Symbol.mem_spellings_letter.mp hw).1
      · exact ih hc

end Written

namespace Token

-- ── What the scanner finds ────────────────────────────────────────────────

/-- Unless a character begins a spelling of several characters, it is looked at
    alone. -/
theorem scanFrom_cons {c : Char} (hlt : c ≠ '<') (hdash : c ≠ '-') (start : Nat)
    (cs : List Char) : scanFrom start (c :: cs) =
      if Symbol.isIgnored c then scanFrom (start + 1) cs
      else
        match Symbol.ofChar? c with
        | some symbol => do
            return ⟨symbol, String.singleton c, start⟩ :: (← scanFrom (start + 1) cs)
        | none => .error ⟨c, start⟩ := by
  have hbicond : ∀ rest, c = '<' → cs = '-' :: '>' :: rest → False := fun _ hc _ => hlt hc
  have himp : ∀ rest, c = '-' → cs = '>' :: rest → False := fun _ hc _ => hdash hc
  exact scanFrom.eq_4 start c cs hbicond himp

/-- An ignored character only moves the position. -/
theorem scanFrom_ignored {c : Char} (h : Symbol.isIgnored c = true) (start : Nat)
    (cs : List Char) : scanFrom start (c :: cs) = scanFrom (start + 1) cs := by
  have hlt : c ≠ '<' := by
    rintro rfl
    cases h
  have hdash : c ≠ '-' := by
    rintro rfl
    cases h
  rw [scanFrom_cons hlt hdash, if_pos h]

/-- The scanner takes a spelling that the text begins with, and goes on behind
    it. -/
theorem scanFrom_spelling {w : String} {s : Symbol} (h : w ∈ s.spellings) (start : Nat)
    (cs : List Char) : scanFrom start (w.toList ++ cs) =
      (do return ⟨s, w, start⟩ :: (← scanFrom (start + w.length) cs)) := by
  rcases Symbol.mem_spellings_cases h with ⟨rfl, rfl⟩ | ⟨rfl, rfl⟩ | ⟨c, rfl, hc⟩
  · rfl
  · rfl
  · have hlt : c ≠ '<' := by
      rintro rfl
      cases hc
    have hdash : c ≠ '-' := by
      rintro rfl
      cases hc
    have hnot : ¬ Symbol.isIgnored c = true := by
      rw [Symbol.isIgnored_of_ofChar? hc]
      exact Bool.false_ne_true
    have hlist : (String.singleton c).toList ++ cs = c :: cs := by simp
    rw [hlist, scanFrom_cons hlt hdash, if_neg hnot, hc]
    simp

theorem scanFrom_of_written {cs : List Char} {ss : List Symbol} (h : Written cs ss) :
    ∀ start : Nat, ∃ ts, scanFrom start cs = .ok ts ∧ ts.map Token.symbol = ss := by
  induction h with
  | nil =>
      intro start
      exact ⟨[], rfl, rfl⟩
  | ignored hc _ ih =>
      intro start
      obtain ⟨ts, hts, hss⟩ := ih (start + 1)
      exact ⟨ts, by rw [scanFrom_ignored hc, hts], hss⟩
  | @spelling w s cs ss hw _ ih =>
      intro start
      obtain ⟨ts, hts, hss⟩ := ih (start + w.length)
      refine ⟨⟨s, w, start⟩ :: ts, ?_, ?_⟩
      · rw [scanFrom_spelling hw, hts]
        rfl
      · rw [List.map_cons, hss]

/-- A token spelt `w` in front of a text that writes what is scanned. -/
theorem written_token {w : String} {cs : List Char} {s : Symbol} {start next : Nat}
    {ts : List Token} (hw : w ∈ s.spellings)
    (h : (do return (⟨s, w, start⟩ : Token) :: (← scanFrom next cs)) = Except.ok ts)
    (ih : ∀ {us : List Token}, scanFrom next cs = .ok us → Written cs (us.map Token.symbol)) :
    Written (w.toList ++ cs) (ts.map Token.symbol) := by
  cases hs : scanFrom next cs with
  | error e =>
      rw [hs] at h
      cases h
  | ok us =>
      rw [hs] at h
      cases h
      exact .spelling hw (ih hs)

theorem written_of_scanFrom {cs : List Char} {start : Nat} {ts : List Token}
    (h : scanFrom start cs = .ok ts) : Written cs (ts.map Token.symbol) := by
  fun_induction scanFrom start cs generalizing ts with
  | case1 start =>
      cases h
      exact .nil
  | case2 start cs ih => exact written_token (w := "<->") (by decide) h ih
  | case3 start cs ih => exact written_token (w := "->") (by decide) h ih
  | case4 start c cs _ _ hc ih => exact .ignored hc (ih h)
  | case5 start c cs _ _ _ s hs ih =>
      have hw := written_token (Symbol.singleton_mem_spellings hs) h ih
      rwa [String.toList_singleton] at hw
  | case6 => cases h

end Token

/-- A text writes one sequence of symbols at most. -/
theorem Written.unique {cs : List Char} {ss ts : List Symbol} (h : Written cs ss)
    (h' : Written cs ts) : ss = ts := by
  obtain ⟨us, hus, rfl⟩ := Token.scanFrom_of_written h 0
  obtain ⟨vs, hvs, rfl⟩ := Token.scanFrom_of_written h' 0
  rw [Except.ok.inj (hus.symm.trans hvs)]

end TruthTables
