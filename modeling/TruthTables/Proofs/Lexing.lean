import TruthTables.Token.Lexer

/-!
# The lexer — where the tokens of a text stand

    A token records how it was spelt and at which character.  The main
    statement, `scan_getElem?`, says that the record is true: the spelling
    stands in the text at that position, and the tokens after it are those
    that the rest of the text is cut into.
-/

namespace TruthTables.Token

/-- The token at index `k` stands in the characters `cs`, which start at
    `start`, and what follows it is cut into the tokens after it. -/
def Stands (start : Nat) (cs : List Char) (ts : List Token) (k : Nat) (t : Token) : Prop :=
  start ≤ t.position ∧
    ∃ rest, cs.drop (t.position - start) = t.spelling.toList ++ rest ∧
      scanFrom (t.position + t.spelling.length) rest = .ok (ts.drop (k + 1))

/-- Characters in front do not move the tokens behind them. -/
theorem Stands.shift {start k : Nat} {cs w : List Char} {ts : List Token} {t : Token}
    (h : Stands (start + w.length) cs ts k t) : Stands start (w ++ cs) ts k t := by
  obtain ⟨hle, rest, hdrop, hrest⟩ := h
  refine ⟨by omega, rest, ?_, hrest⟩
  rw [List.drop_append, List.drop_eq_nil_of_le (by omega), List.nil_append,
    Nat.sub_sub, hdrop]

/-- A token spelt `w` in front of characters whose tokens stand where they
    should: then all of them do. -/
theorem stands_token {start : Nat} {w cs : List Char} {symbol : Symbol} {spelling : String}
    {ts : List Token} (hw : spelling.toList = w)
    (h : (do return (⟨symbol, spelling, start⟩ : Token) :: (← scanFrom (start + w.length) cs)) =
      Except.ok ts)
    (ih : ∀ {us : List Token}, scanFrom (start + w.length) cs = .ok us →
      ∀ {k : Nat} {u : Token}, us[k]? = some u → Stands (start + w.length) cs us k u)
    {k : Nat} {t : Token} (ht : ts[k]? = some t) : Stands start (w ++ cs) ts k t := by
  cases hs : scanFrom (start + w.length) cs with
  | error e =>
      rw [hs] at h
      cases h
  | ok us =>
      rw [hs] at h
      cases h
      cases k with
      | zero =>
          obtain rfl : (⟨symbol, spelling, start⟩ : Token) = t := by simpa using ht
          refine ⟨Nat.le_refl _, cs, ?_, ?_⟩
          · simp [hw]
          · rw [← String.length_toList, hw]
            exact hs
      | succ k =>
          rw [List.getElem?_cons_succ] at ht
          have hu : Stands start (w ++ cs) us k t := Stands.shift (ih hs ht)
          exact hu

theorem scanFrom_getElem? {start : Nat} {cs : List Char} {ts : List Token}
    (h : scanFrom start cs = .ok ts) {k : Nat} {t : Token} (ht : ts[k]? = some t) :
    Stands start cs ts k t := by
  fun_induction scanFrom start cs generalizing ts k t with
  | case1 start =>
      cases h
      simp at ht
  | case2 start cs ih => exact stands_token (w := ['<', '-', '>']) (by simp) h ih ht
  | case3 start cs ih => exact stands_token (w := ['-', '>']) (by simp) h ih ht
  | case4 start c cs _ _ _ ih => exact Stands.shift (w := [c]) (ih h ht)
  | case5 start c cs _ _ _ symbol _ ih => exact stands_token (w := [c]) (by simp) h ih ht
  | case6 => cases h

/-- A token of a text stands where it says, spelt as it says, and the tokens
    after it are those of the rest of the text. -/
theorem scan_getElem? {text : String} {ts : List Token} (h : scan text = .ok ts)
    {k : Nat} {t : Token} (ht : ts[k]? = some t) :
    ∃ rest, text.toList.drop t.position = t.spelling.toList ++ rest ∧
      scanFrom (t.position + t.spelling.length) rest = .ok (ts.drop (k + 1)) :=
  (scanFrom_getElem? h ht).2

end TruthTables.Token
