import TruthTables.Proofs.Parsing

/-!
# Tracking — the notes on the tokens tell what the stack knows

    Two things go on while tokens are pulled in.  The reader keeps a stack,
    and decides from it what can be read.  Beside it notes are taken on the
    last two tokens and on the parentheses, and from these alone it is told
    why a token or the end was refused.

    The notes follow the reader (`Track.Follows`).  The depth is the number of
    parentheses that are open on the stack, since closing leaves those alone
    (`count_paren_close`); and the last token ends an operand exactly when the
    reader has one.  Both hold at the start, and pulling in a token that is
    read keeps them (`Track.Follows.pull`).

    **Main results** (`Track.Follows.explain_end`, `Track.Follows.explain_token`).
    What is told from the notes is what the stack would tell.
-/

namespace TruthTables.Parser

-- ── Open parentheses ──────────────────────────────────────────────────────

/-- Closing takes no parenthesis off the stack. -/
theorem count_paren_close (n : Nat) (ps : List Pending) (f : Formula) :
    (close n ps f).1.count .paren = ps.count .paren := by
  fun_induction close n ps f with
  | case1 ps f ih => rw [ih, List.count_cons_of_ne (by simp)]
  | case2 op l ps f _ ih => rw [ih, List.count_cons_of_ne (by simp)]
  | case3 => rfl
  | case4 => rfl

/-- The parenthesis that closing stops at is one of those that were open. -/
theorem count_paren_of_close {ps qs : List Pending} {f g : Formula}
    (h : close 0 ps f = (.paren :: qs, g)) : ps.count .paren = qs.count .paren + 1 := by
  rw [← count_paren_close 0 ps f, h, List.count_cons_self]

/-- After an operand, the input can end exactly when no parenthesis is open. -/
theorem exists_finish_iff (ps : List Pending) (f : Formula) :
    (∃ g, State.finish ⟨ps, some f⟩ = some g) ↔ ps.count .paren = 0 := by
  rcases close_zero_cases ps f with ⟨g, hc⟩ | ⟨qs, g, hc⟩
  · have hcount := count_paren_close 0 ps f
    rw [hc, List.count_nil] at hcount
    simp only [State.finish, hc]
    exact iff_of_true ⟨g, rfl⟩ hcount.symm
  · simp only [State.finish, hc, count_paren_of_close hc]
    refine iff_of_false ?_ (Nat.succ_ne_zero _)
    rintro ⟨g', hg⟩
    cases hg

/-- After an operand, all that is refused is another one, and a closing parenthesis if none
    is open. -/
theorem refused_after {ps : List Pending} {f : Formula} {t : Token}
    (h : State.read ⟨ps, some f⟩ t = none) :
    t.symbol.isOperandStart = true ∨ t.symbol = .rparen ∧ ps.count .paren = 0 := by
  obtain ⟨x, spelling, position⟩ := t
  match x with
  | .letter _ | .lparen | .connective .not => exact .inl rfl
  | .connective (.bin _) => cases h
  | .rparen =>
      refine .inr ⟨rfl, ?_⟩
      rcases close_zero_cases ps f with ⟨g, hc⟩ | ⟨qs, g, hc⟩
      · rw [← count_paren_close 0 ps f, hc, List.count_nil]
      · simp only [State.read, readAfter, hc] at h
        cases h

-- ── The notes follow the reader ───────────────────────────────────────────

namespace Track

/-- The notes are right about a state of the reader. -/
structure Follows (k : Track) (s : State) : Prop where
  depth : k.depth = (s.pending.count .paren : Nat)
  last : (k.last.any fun t => t.symbol.isOperandEnd) = s.operand.isSome

theorem follows_start : start.Follows .start := ⟨rfl, rfl⟩

variable {k : Track} {s s' : State} {t : Token}

/-- They stay right when a token is pulled in and read. -/
theorem Follows.pull (h : k.Follows s) (hread : s.read t = some s') : (k.pull t).Follows s' := by
  obtain ⟨x, spelling, position⟩ := t
  have hdepth := h.depth
  have hstep : Step s x s' := step_of_read hread
  cases hstep with
  | letter c => exact ⟨hdepth, rfl⟩
  | @lparen ps =>
      refine ⟨?_, rfl⟩
      show k.depth + 1 = ((Pending.paren :: ps).count .paren : Nat)
      rw [hdepth, List.count_cons_self]
      rfl
  | neg =>
      refine ⟨hdepth.trans ?_, rfl⟩
      rw [List.count_cons_of_ne (by simp)]
  | @bin ps qs f g op hc =>
      refine ⟨hdepth.trans ?_, rfl⟩
      rw [List.count_cons_of_ne (by simp), ← count_paren_close op.strength ps f, hc]
  | @rparen ps qs f g hc =>
      refine ⟨?_, rfl⟩
      show k.depth - 1 = (qs.count .paren : Nat)
      have hcount : ps.count .paren = qs.count .paren + 1 := count_paren_of_close hc
      have hps : k.depth = (ps.count .paren : Nat) := hdepth
      omega

/-- The end is refused inside a parenthesis, or where an operand is expected. -/
theorem Follows.explain_end (h : k.Follows s) (hs : s.finish = none) :
    k.explain none = if s.operand.isSome then .unclosed else .endOfInput := by
  obtain ⟨ps, operand⟩ := s
  have hdepth : k.depth = (ps.count .paren : Nat) := h.depth
  rw [explain, h.last]
  cases operand with
  | none => rfl
  | some f =>
      have hcount : ps.count .paren ≠ 0 := by
        rw [Ne, ← exists_finish_iff ps f, hs]
        rintro ⟨g, hg⟩
        cases hg
      have hopen : 0 < k.depth := by omega
      simp [hopen]

/-- A token is refused where an operand is expected; or after a whole formula; or after an
    operand that a parenthesis is still open in front of. -/
theorem Follows.explain_token (h : k.Follows s) (hread : s.read t = none) :
    (s.operand = none ∧ (k.pull t).explain (some t) = .unexpected t) ∨
      (s.operand.isSome ∧ (∃ g, s.finish = some g) ∧
        (k.pull t).explain (some t) = .trailing t) ∨
      (s.operand.isSome ∧ (¬ ∃ g, s.finish = some g) ∧
        (k.pull t).explain (some t) = .unclosedBefore t) := by
  obtain ⟨ps, operand⟩ := s
  have hdepth : k.depth = (ps.count .paren : Nat) := h.depth
  have hprevious : ((k.pull t).previous.any fun p => p.symbol.isOperandEnd) = operand.isSome :=
    h.last
  have hbefore : (k.pull t).depthBefore = (ps.count .paren : Nat) := hdepth
  cases operand with
  | none =>
      refine .inl ⟨rfl, ?_⟩
      rw [explain, hprevious]
      rfl
  | some f =>
      refine .inr ?_
      rw [exists_finish_iff, explain, hprevious, hbefore]
      rcases refused_after hread with hstart | ⟨hx, hclosed⟩
      · by_cases hopen : ps.count .paren = 0
        · exact .inl ⟨rfl, hopen, by simp [hstart, hopen]⟩
        · exact .inr ⟨rfl, hopen, by simp [hstart, Nat.pos_of_ne_zero hopen]⟩
      · exact .inl ⟨rfl, hclosed, by simp [hx, hclosed]⟩

end Track

/-- A run that fails follows the reader up to the end, or up to a token that is refused. -/
theorem follow_eq_error {k : Track} {s : State} {ts : List Token} {e : ParseError}
    (hk : k.Follows s) (h : follow State.read State.finish k s ts = .error e) :
    (∃ (k' : Track) (s' : State), k'.Follows s' ∧ s.reads ts = some s' ∧
        s'.finish = none ∧ e = k'.explain none) ∨
      ∃ (i : Nat) (k' : Track) (s' : State) (t : Token), k'.Follows s' ∧ ts[i]? = some t ∧
        s.reads (ts.take i) = some s' ∧ s'.read t = none ∧ e = (k'.pull t).explain (some t) := by
  induction ts generalizing k s with
  | nil =>
      rw [follow] at h
      split at h
      · cases h
      · rename_i hs
        cases h
        exact .inl ⟨k, s, hk, rfl, hs, rfl⟩
  | cons t ts ih =>
      rw [follow] at h
      cases hread : s.read t with
      | none =>
          rw [hread] at h
          cases h
          exact .inr ⟨0, k, s, t, hk, rfl, rfl, hread, rfl⟩
      | some m =>
          rw [hread] at h
          rcases ih (hk.pull hread) h with
            ⟨k', s', hk', hs', hend⟩ | ⟨i, k', s', u, hk', hu, hs', he⟩
          · exact .inl ⟨k', s', hk', by rw [reads_cons hread, hs'], hend⟩
          · refine .inr ⟨i + 1, k', s', u, hk', ?_, ?_, he⟩
            · rw [List.getElem?_cons_succ, hu]
            · rw [List.take_succ_cons, reads_cons hread, hs']

end TruthTables.Parser
