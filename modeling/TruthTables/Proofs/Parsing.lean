import TruthTables.Formula.Parser
import TruthTables.Proofs.Grammar

/-!
# The parser — it reads exactly the grammar

    The parser never sees the strata: it keeps a stack of what waits and
    closes it by strength.  Three notions relate the two.  `Step` says all
    that reading one token can do.  `Settled n ps` says that the stack `ps`
    leaves an operand of strength `n` alone.  `Spells` says which symbols a
    state was read from, with a derivation for every operand on the stack.

    Completeness (`reads_of_derives`) is an induction on the derivation, with
    the stack below it left open: a derived operand is read on top of any
    settled stack, and closing it gives the derived formula.  Soundness
    (`Spells.finish`) is an invariant of the steps.  As the parser is a
    function, the grammar is unambiguous.
-/

namespace TruthTables.Parser

-- ── Settled stacks and closing ────────────────────────────────────────────

/-- The stack leaves an operand of strength `n` alone: the innermost thing
    that waits is looser than `n`, or is an open parenthesis, or is not there. -/
def Settled (n : Nat) : List Pending → Prop
  | .neg :: _ => 5 ≤ n
  | .left op _ :: _ => op.strength < n
  | _ => True

theorem Settled.mono {m n : Nat} {ps : List Pending} (h : Settled m ps) (hmn : m ≤ n) :
    Settled n ps := by
  match ps, h with
  | [], _ => trivial
  | .paren :: _, _ => trivial
  | .neg :: _, h => exact Nat.le_trans h hmn
  | .left _ _ :: _, h => exact Nat.lt_of_lt_of_le h hmn

/-- Every stack leaves the operand of a negation alone. -/
theorem settled_operand (ps : List Pending) : Settled Stratum.operand.strength ps := by
  match ps with
  | [] => trivial
  | .paren :: _ => trivial
  | .neg :: _ => exact Nat.le_refl 5
  | .left op _ :: _ =>
      show op.strength < 5
      cases op <;> decide

/-- Closing stops at a settled stack. -/
theorem close_of_settled {n : Nat} {ps : List Pending} (h : Settled n ps) (hn : n ≤ 4)
    (f : Formula) : close n ps f = (ps, f) := by
  match ps, h with
  | [], _ => rfl
  | .paren :: _, _ => rfl
  | .neg :: _, h => exact absurd (Nat.le_trans h hn) (by decide)
  | .left op l :: ps, h =>
      have hlt : op.strength < n := h
      rw [close, if_neg (by omega)]

/-- What closing leaves is settled. -/
theorem settled_close (n : Nat) (ps : List Pending) (f : Formula) :
    Settled n (close n ps f).1 := by
  fun_induction close n ps f with
  | case1 _ _ ih => exact ih
  | case2 _ _ _ _ _ ih => exact ih
  | case3 op l ps f hlt => exact Nat.lt_of_not_le hlt
  | case4 ps f hneg hleft =>
      match ps with
      | [] => trivial
      | .paren :: _ => trivial
      | .neg :: ps => exact absurd rfl (hneg ps)
      | .left op l :: ps => exact absurd rfl (hleft op l ps)

/-- Closing everything stops at an open parenthesis or at the bottom. -/
theorem close_zero_cases (ps : List Pending) (f : Formula) :
    (∃ g, close 0 ps f = ([], g)) ∨ ∃ qs g, close 0 ps f = (.paren :: qs, g) := by
  have h := settled_close 0 ps f
  generalize close 0 ps f = r at h ⊢
  obtain ⟨qs, g⟩ := r
  match qs, h with
  | [], _ => exact .inl ⟨g, rfl⟩
  | .paren :: qs, _ => exact .inr ⟨qs, g, rfl⟩
  | .neg :: _, h => exact absurd (show 5 ≤ 0 from h) (by decide)
  | .left _ _ :: _, h => exact absurd h (Nat.not_lt_zero _)

-- ── One step of reading ───────────────────────────────────────────────────

/-- All that reading one symbol can do. -/
inductive Step : State → Symbol → State → Prop where
  | letter {ps : List Pending} (c : Char) :
      Step ⟨ps, none⟩ (.letter c) ⟨ps, some (.atom (String.singleton c) none)⟩
  | lparen {ps : List Pending} : Step ⟨ps, none⟩ .lparen ⟨.paren :: ps, none⟩
  | neg {ps : List Pending} : Step ⟨ps, none⟩ (.connective .not) ⟨.neg :: ps, none⟩
  | bin {ps qs : List Pending} {f g : Formula} (op : BinOp) :
      close op.strength ps f = (qs, g) →
      Step ⟨ps, some f⟩ (.connective (.bin op)) ⟨.left op g :: qs, none⟩
  | rparen {ps qs : List Pending} {f g : Formula} :
      close 0 ps f = (.paren :: qs, g) → Step ⟨ps, some f⟩ .rparen ⟨qs, some g⟩

theorem read_of_step {s s' : State} {t : Token} (h : Step s t.symbol s') :
    s.read t = some s' := by
  obtain ⟨x, spelling, position⟩ := t
  cases h with
  | letter c => rfl
  | lparen => rfl
  | neg => rfl
  | bin op hc => simp only [State.read, readAfter, hc]
  | rparen hc => simp only [State.read, readAfter, hc]

theorem step_of_read {s s' : State} {t : Token} (h : s.read t = some s') :
    Step s t.symbol s' := by
  obtain ⟨ps, operand⟩ := s
  cases operand with
  | none =>
      simp only [State.read, readOperand] at h
      split at h
      · rename_i c hx
        cases h
        rw [hx]
        exact .letter c
      · rename_i hx
        cases h
        rw [hx]
        exact .lparen
      · rename_i hx
        cases h
        rw [hx]
        exact .neg
      all_goals cases h
  | some f =>
      simp only [State.read, readAfter] at h
      split at h
      · rename_i op hx
        cases h
        rw [hx]
        exact .bin op rfl
      · rename_i hx
        split at h
        · rename_i qs g hc
          cases h
          rw [hx]
          exact .rparen hc
        · cases h
      all_goals cases h

/-- Reading tokens one after another. -/
def State.reads (s : State) (ts : List Token) : Option State :=
  ts.foldlM State.read s

@[simp] theorem reads_nil (s : State) : s.reads [] = some s := rfl

theorem reads_cons {s s' : State} {t : Token} (h : s.read t = some s') (ts : List Token) :
    s.reads (t :: ts) = s'.reads ts := by
  simp only [State.reads, List.foldlM_cons, h]
  rfl

theorem reads_append {s s' : State} {ts : List Token} (h : s.reads ts = some s')
    (us : List Token) : s.reads (ts ++ us) = s'.reads us := by
  simp only [State.reads] at h
  simp only [State.reads, List.foldlM_append, h]
  rfl

/-- Following tokens reads states, whatever is noted on the way. -/
theorem follow_eq_ok_iff {k : Track} {s : State} {ts : List Token} {f : Formula} :
    follow State.read State.finish k s ts = .ok f ↔
      ∃ s', s.reads ts = some s' ∧ s'.finish = some f := by
  induction ts generalizing k s with
  | nil =>
      rw [follow]
      cases hf : s.finish with
      | none => simp [hf]
      | some g => simp [hf]
  | cons t ts ih =>
      rw [follow]
      cases hread : s.read t with
      | none => simp [State.reads, List.foldlM_cons, hread]
      | some m => rw [reads_cons hread]; exact ih

theorem readAll_eq_ok_iff {ts : List Token} {f : Formula} :
    readAll State.read State.finish .start ts = .ok f ↔
      ∃ s, State.start.reads ts = some s ∧ s.finish = some f := by
  rw [readAll]
  split
  · rename_i hts
    subst hts
    refine iff_of_false nofun ?_
    rintro ⟨s, hs, hf⟩
    cases hs
    cases hf
  · exact follow_eq_ok_iff

-- ── Completeness: what the grammar derives is read ────────────────────────

/-- A derived operand can be read on top of every stack that leaves its
    stratum alone.  The formula itself is put together later, whenever the
    stack is closed: then it is the derived one. -/
theorem reads_of_derives {s : Stratum} {ss : List Symbol} {f : Formula} (h : s.Derives ss f) :
    ∀ (ps : List Pending) (ts : List Token), Settled s.strength ps → ts.map Token.symbol = ss →
      ∃ qs g, State.reads ⟨ps, none⟩ ts = some ⟨qs, some g⟩ ∧
        ∀ n, n ≤ s.strength → close n qs g = close n ps f := by
  induction h with
  | @single op ss f _ ih =>
      intro ps ts hps hts
      rw [Stratum.strength_rightOf] at ih
      obtain ⟨qs, g, hr, hc⟩ := ih ps ts (hps.mono (Nat.le_succ _)) hts
      exact ⟨qs, g, hr, fun n hn => hc n (Nat.le_succ_of_le hn)⟩
  | @join op ss us f g _ _ ihf ihg =>
      intro ps ts hps hts
      obtain ⟨ts₁, ts₂, rfl, h₁, h₂⟩ := List.map_eq_append_iff.mp hts
      obtain ⟨t, ts₃, rfl, ht, h₃⟩ := List.map_eq_cons_iff.mp h₂
      obtain ⟨qs, f', hr, hc⟩ := ihf ps ts₁ hps h₁
      -- the connective closes the left operand and nothing below it
      have hclose : close op.strength qs f' = (ps, f) := by
        rw [hc op.strength (Nat.le_refl _)]
        exact close_of_settled hps (by cases op <;> decide) f
      have hstep : State.read ⟨qs, some f'⟩ t = some ⟨.left op f :: ps, none⟩ :=
        read_of_step (by rw [ht]; exact .bin op hclose)
      rw [Stratum.strength_rightOf] at ihg
      obtain ⟨qs', g', hr', hc'⟩ := ihg (.left op f :: ps) ts₃ (Nat.lt_succ_self _) h₃
      refine ⟨qs', g', ?_, ?_⟩
      · rw [reads_append hr, reads_cons hstep, hr']
      · intro n hn
        have hle : n ≤ op.strength := hn
        rw [hc' n (Nat.le_succ_of_le hle), close, if_pos hle]
  | @neg ss f _ ih =>
      intro ps ts _ hts
      obtain ⟨t, us, rfl, ht, hu⟩ := List.map_eq_cons_iff.mp hts
      obtain ⟨qs, g, hr, hc⟩ := ih (.neg :: ps) us (settled_operand _) hu
      have hstep : State.read ⟨ps, none⟩ t = some ⟨.neg :: ps, none⟩ :=
        read_of_step (by rw [ht]; exact .neg)
      refine ⟨qs, g, ?_, ?_⟩
      · rw [reads_cons hstep, hr]
      · intro n hn
        rw [hc n hn, close]
  | letter c =>
      intro ps ts _ hts
      obtain ⟨t, rfl, ht⟩ := List.map_eq_singleton_iff.mp hts
      have hstep : State.read ⟨ps, none⟩ t = some ⟨ps, some (.atom (String.singleton c) none)⟩ :=
        read_of_step (by rw [ht]; exact .letter c)
      exact ⟨ps, _, by rw [reads_cons hstep, reads_nil], fun n _ => rfl⟩
  | @paren ss f _ ih =>
      intro ps ts _ hts
      obtain ⟨t, ts', rfl, ht, hts'⟩ := List.map_eq_cons_iff.mp hts
      obtain ⟨us, vs, rfl, hu, hvs⟩ := List.map_eq_append_iff.mp hts'
      obtain ⟨v, rfl, hv⟩ := List.map_eq_singleton_iff.mp hvs
      obtain ⟨qs, g, hr, hc⟩ := ih (.paren :: ps) us trivial hu
      have hopen : State.read ⟨ps, none⟩ t = some ⟨.paren :: ps, none⟩ :=
        read_of_step (by rw [ht]; exact .lparen)
      have hshut : State.read ⟨qs, some g⟩ v = some ⟨ps, some f⟩ := by
        refine read_of_step ?_
        rw [hv]
        exact .rparen (hc 0 (Nat.zero_le _))
      refine ⟨ps, f, ?_, fun n _ => rfl⟩
      rw [reads_cons hopen, reads_append hr, reads_cons hshut, reads_nil]

/-- A whole formula of the grammar is read to its end, and is what is read. -/
theorem finish_of_derives (ts : List Token) {f : Formula}
    (h : Stratum.whole.Derives (ts.map Token.symbol) f) :
    ∃ s, State.start.reads ts = some s ∧ s.finish = some f := by
  obtain ⟨qs, g, hr, hc⟩ := reads_of_derives h [] ts trivial rfl
  refine ⟨⟨qs, some g⟩, hr, ?_⟩
  have hclose : close 0 qs g = ([], f) := hc 0 (Nat.zero_le _)
  simp only [State.finish, hclose]

-- ── Soundness: what is read is derived ────────────────────────────────────

/-- What waits was read from the symbols, each left operand by a derivation. -/
inductive Stacked : List Pending → List Symbol → Prop where
  | nil : Stacked [] []
  | paren {ps : List Pending} {ss : List Symbol} :
      Stacked ps ss → Stacked (.paren :: ps) (ss ++ [.lparen])
  | neg {ps : List Pending} {ss : List Symbol} :
      Stacked ps ss → Stacked (.neg :: ps) (ss ++ [.connective .not])
  | left {ps : List Pending} {ss ts : List Symbol} {op : BinOp} {f : Formula} :
      Stacked ps ss → Settled op.strength ps → (Stratum.chain op).Derives ts f →
      Stacked (.left op f :: ps) (ss ++ (ts ++ [.connective (.bin op)]))

/-- The state was read from the symbols. -/
inductive Spells : State → List Symbol → Prop where
  | waiting {ps : List Pending} {ss : List Symbol} : Stacked ps ss → Spells ⟨ps, none⟩ ss
  | completed {ps : List Pending} {ss ts : List Symbol} {f : Formula} :
      Stacked ps ss → Stratum.operand.Derives ts f → Spells ⟨ps, some f⟩ (ss ++ ts)

/-- Closing regroups what was read: it moves symbols from the stack into the
    operand, which stays derived, in a stratum at least as tight as asked. -/
theorem Stacked.close {s : Stratum} {ps : List Pending} {ss ts : List Symbol} {f : Formula}
    (hs : Stacked ps ss) (hf : s.Derives ts f) (hps : Settled s.strength ps) (n : Nat)
    (hn : n ≤ s.strength) :
    ∃ (r : Stratum) (ss' ts' : List Symbol), n ≤ r.strength ∧ ss' ++ ts' = ss ++ ts ∧
      Stacked (close n ps f).1 ss' ∧ r.Derives ts' (close n ps f).2 := by
  induction hs generalizing s ts f with
  | nil => exact ⟨s, [], ts, hn, rfl, .nil, hf⟩
  | @paren ps ss hs _ => exact ⟨s, _, ts, hn, rfl, .paren hs, hf⟩
  | @neg ps ss _ ih =>
      -- only an operand can stand after a negation
      have hop : Stratum.operand.Derives ts f := hf.loosen hps
      obtain ⟨r, ss', ts', hr, heq, hs', hd⟩ :=
        ih hop.neg (settled_operand ps) (Nat.le_trans hn (Stratum.strength_le_five s))
      refine ⟨r, ss', ts', hr, ?_, hs', hd⟩
      rw [heq, List.append_assoc]
      rfl
  | @left ps ss us op l hs hset hl ih =>
      by_cases hle : n ≤ op.strength
      · have hright : (Stratum.rightOf op).Derives ts f := by
          refine hf.loosen ?_
          rw [Stratum.strength_rightOf]
          exact hps
        obtain ⟨r, ss', ts', hr, heq, hs', hd⟩ := ih (hl.join hright) hset hle
        rw [Parser.close, if_pos hle]
        refine ⟨r, ss', ts', hr, ?_, hs', hd⟩
        simpa using heq
      · rw [Parser.close, if_neg hle]
        exact ⟨s, _, ts, hn, rfl, .left hs hset hl, hf⟩

/-- One step keeps the state tied to the symbols read. -/
theorem Spells.step {s s' : State} {x : Symbol} {ss : List Symbol} (h : Spells s ss)
    (hstep : Step s x s') : Spells s' (ss ++ [x]) := by
  cases hstep with
  | letter c =>
      cases h with
      | waiting hs => exact .completed hs (.letter c)
  | lparen =>
      cases h with
      | waiting hs => exact .waiting hs.paren
  | neg =>
      cases h with
      | waiting hs => exact .waiting hs.neg
  | @bin ps qs f g op hc =>
      cases h with
      | completed hs hf =>
          obtain ⟨r, ss', ts', hr, heq, hs', hd⟩ :=
            hs.close hf (settled_operand ps) op.strength (by cases op <;> decide)
          have hset := settled_close op.strength ps f
          rw [hc] at hs' hd hset
          rw [← heq, List.append_assoc]
          exact .waiting (hs'.left hset (hd.loosen hr))
  | @rparen ps qs f g hc =>
      cases h with
      | completed hs hf =>
          obtain ⟨r, ss', ts', hr, heq, hs', hd⟩ :=
            hs.close hf (settled_operand ps) 0 (Nat.zero_le _)
          rw [hc] at hs' hd
          cases hs' with
          | @paren _ ss'' hs'' =>
              have hparen := Stratum.Derives.paren (hd.loosen r.strength_pos)
              rw [← heq]
              simpa using Spells.completed hs'' hparen

/-- A run keeps the state tied to the symbols read. -/
theorem Spells.reads {s s' : State} {ss : List Symbol} (h : Spells s ss) :
    ∀ {ts : List Token}, s.reads ts = some s' → Spells s' (ss ++ ts.map Token.symbol) := by
  intro ts
  induction ts generalizing s ss with
  | nil =>
      intro hr
      cases hr
      simpa using h
  | cons t ts ih =>
      intro hr
      cases hread : s.read t with
      | none =>
          simp only [State.reads, List.foldlM_cons, hread] at hr
          cases hr
      | some m =>
          rw [reads_cons hread] at hr
          simpa using ih (h.step (step_of_read hread)) hr

/-- A whole input that is accepted derives the formula that is read. -/
theorem Spells.finish {s : State} {ss : List Symbol} {f : Formula} (h : Spells s ss)
    (hf : s.finish = some f) : Stratum.whole.Derives ss f := by
  cases h with
  | waiting hs =>
      cases hf
  | @completed ps ss ts g hs hg =>
      obtain ⟨r, ss', ts', hr, heq, hs', hd⟩ :=
        hs.close hg (settled_operand ps) 0 (Nat.zero_le _)
      simp only [State.finish] at hf
      split at hf
      · rename_i g' hc
        cases hf
        rw [hc] at hs' hd
        cases hs' with
        | nil =>
            rw [← heq]
            exact hd.loosen r.strength_pos
      · cases hf

theorem spells_start : Spells .start [] := .waiting .nil

/-- The parser accepts exactly what the grammar derives, and reads it as the
    derived formula. -/
theorem reads_finish_iff (ts : List Token) (f : Formula) :
    (∃ s, State.start.reads ts = some s ∧ s.finish = some f) ↔
      Stratum.whole.Derives (ts.map Token.symbol) f := by
  constructor
  · rintro ⟨s, hr, hf⟩
    have hs : Spells s ([] ++ ts.map Token.symbol) := spells_start.reads hr
    exact hs.finish hf
  · exact finish_of_derives ts

end TruthTables.Parser

namespace TruthTables

-- ── Whole texts ───────────────────────────────────────────────────────────

/-- The grammar is unambiguous: two formulas derived from the same symbols
    are both what the parser reads. -/
theorem Stratum.Derives.unique {ss : List Symbol} {f g : Formula}
    (hf : Stratum.whole.Derives ss f) (hg : Stratum.whole.Derives ss g) : f = g := by
  have hss : (ss.map fun x => (⟨x, "", 0⟩ : Token)).map Token.symbol = ss := by
    rw [List.map_map]
    exact List.map_id ss
  rw [← hss] at hf hg
  obtain ⟨s, hr, hs⟩ := Parser.finish_of_derives _ hf
  obtain ⟨s', hr', hs'⟩ := Parser.finish_of_derives _ hg
  have heq : s = s' := Option.some.inj (hr.symm.trans hr')
  rw [← heq] at hs'
  exact Option.some.inj (hs.symm.trans hs')

namespace Formula

/-- Numbering changes identities only. -/
@[simp] theorem bare_numberFrom (f : Formula) :
    ∀ start : Int, (f.numberFrom start).bare = f.bare := by
  simp only [bare]
  induction f with
  | atom name i =>
      intro start
      rfl
  | neg f i ih =>
      intro start
      simp only [numberFrom, mapIds, ih]
  | bin op l r i ihl ihr =>
      intro start
      simp only [numberFrom, mapIds, ihl, ihr]

/-- Tokens are read as a formula when states are read from them, and the input can end
    in the last one. -/
theorem ofTokens_eq_ok_iff (ts : List Token) (g : Formula) :
    ofTokens ts = .ok g ↔
      ∃ s f, Parser.State.start.reads ts = some s ∧ s.finish = some f ∧ g = f.number := by
  rw [ofTokens]
  constructor
  · intro h
    cases hr : Parser.readAll Parser.State.read Parser.State.finish .start ts with
    | error e =>
        rw [hr] at h
        cases h
    | ok f =>
        rw [hr] at h
        cases h
        obtain ⟨s, hs, hf⟩ := Parser.readAll_eq_ok_iff.mp hr
        exact ⟨s, f, hs, hf, rfl⟩
  · rintro ⟨s, f, hs, hf, rfl⟩
    rw [Parser.readAll_eq_ok_iff.mpr ⟨s, hs, hf⟩]
    rfl

/-- Tokens are read as a formula, identities aside, exactly when the grammar
    derives it from their symbols. -/
theorem ofTokens_derives (ts : List Token) (t : Formula) :
    (∃ g, ofTokens ts = .ok g ∧ g.bare = t) ↔
      Stratum.whole.Derives (ts.map Token.symbol) t := by
  rw [← Parser.reads_finish_iff]
  constructor
  · rintro ⟨g, hg, rfl⟩
    obtain ⟨s, f, hr, hf, rfl⟩ := (ofTokens_eq_ok_iff ts g).mp hg
    have hd := (Parser.reads_finish_iff ts f).mp ⟨s, hr, hf⟩
    refine ⟨s, hr, ?_⟩
    rw [number, bare_numberFrom, hd.bare_eq, hf]
  · rintro ⟨s, hr, hf⟩
    have hd := (Parser.reads_finish_iff ts t).mp ⟨s, hr, hf⟩
    refine ⟨t.number, (ofTokens_eq_ok_iff ts _).mpr ⟨s, t, hr, hf, rfl⟩, ?_⟩
    rw [number, bare_numberFrom, hd.bare_eq]

/-- A text cut into tokens is read as its tokens are. -/
theorem ofText_of_scan {text : String} {ts : List Token} (h : Token.scan text = .ok ts) :
    ofText text = (ofTokens ts).mapError .parse := by
  simp only [ofText, h]
  rfl

/-- A text is read when it is cut into tokens and these are read. -/
theorem ofText_eq_ok_iff {text : String} {f : Formula} :
    ofText text = .ok f ↔ ∃ ts, Token.scan text = .ok ts ∧ ofTokens ts = .ok f := by
  cases hs : Token.scan text with
  | error e =>
      simp only [ofText, hs]
      constructor
      · intro h
        cases h
      · rintro ⟨ts, hts, -⟩
        cases hts
  | ok ts =>
      rw [ofText_of_scan hs]
      constructor
      · intro h
        cases hts : ofTokens ts with
        | error e =>
            rw [hts] at h
            cases h
        | ok g =>
            rw [hts] at h
            cases h
            exact ⟨ts, rfl, hts⟩
      · rintro ⟨ts', hts', hf⟩
        cases hts'
        rw [hf]
        rfl

/-- **The parser reads the grammar.**  A text cut into tokens is read as a
    formula exactly when the grammar derives the formula from them, and is
    refused by the parser exactly when the grammar derives nothing.  No
    sequence of symbols derives two formulas. -/
theorem ofText_iff_derives (text : String) (ts : List Token) (h : Token.scan text = .ok ts) :
    (∀ t : Formula, (∃ f, ofText text = .ok f ∧ f.bare = t) ↔
        Stratum.whole.Derives (ts.map Token.symbol) t) ∧
      ((∃ e, ofText text = .error (.parse e)) ↔
        ∀ t, ¬ Stratum.whole.Derives (ts.map Token.symbol) t) ∧
      ∀ (ss : List Symbol) (t u : Formula),
        Stratum.whole.Derives ss t → Stratum.whole.Derives ss u → t = u := by
  rw [ofText_of_scan h]
  refine ⟨fun t => ?_, ?_, fun ss t u => Stratum.Derives.unique⟩
  · rw [← ofTokens_derives]
    cases ofTokens ts with
    | error e =>
        constructor
        · rintro ⟨f, hf, -⟩
          cases hf
        · rintro ⟨f, hf, -⟩
          cases hf
    | ok g =>
        constructor
        · rintro ⟨f, hf, hbare⟩
          cases hf
          exact ⟨g, rfl, hbare⟩
        · rintro ⟨f, hf, hbare⟩
          cases hf
          exact ⟨g, rfl, hbare⟩
  · have hd := ofTokens_derives ts
    cases hts : ofTokens ts with
    | error e =>
        rw [hts] at hd
        refine iff_of_true ⟨e, rfl⟩ fun t ht => ?_
        obtain ⟨g, hg, -⟩ := (hd t).mpr ht
        cases hg
    | ok g =>
        rw [hts] at hd
        refine iff_of_false ?_ fun hno => hno g.bare ((hd g.bare).mp ⟨g, rfl, rfl⟩)
        rintro ⟨e, he⟩
        cases he

/-- Negation binds more tightly than conjunction, conjunction more tightly than
    implication, and implication groups to the left. -/
theorem ofText_derives_neg_and_imp_imp :
    ∃ ts, Token.scan "~P & Q -> R -> S" = .ok ts ∧
      Stratum.whole.Derives (ts.map Token.symbol)
        (.bin .imp
          (.bin .imp (.bin .and (.neg (.atom "P" none) none) (.atom "Q" none) none)
            (.atom "R" none) none)
          (.atom "S" none) none) := by
  refine ⟨_, rfl, ?_⟩
  exact ((ofText_iff_derives "~P & Q -> R -> S" _ rfl).1 _).mp ⟨_, rfl, rfl⟩

end Formula

end TruthTables
