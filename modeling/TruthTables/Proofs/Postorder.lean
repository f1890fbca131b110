import TruthTables.Proofs.Ascending
import TruthTables.Proofs.Generation
import TruthTables.Proofs.Numbering
import TruthTables.Proofs.Truth

/-!
# Post-order — the identities of an accepted text, told from its tokens

    An accepted text has one node for each token that is no parenthesis: a
    leaf for a letter, an inner node for a connective.  So the tokens tell
    how many identities there are, which one the root has, how many columns
    the table has and which atoms (`ReadOff`).  Each count is an induction on
    the derivation in which the parentheses contribute nothing.

    **Main result** (`Formula.ofText_readOff`): what holds of the tokens holds
    of the formula whose identities the reader hands out on the way, and
    parentheses change none of it.  A pair that is put around a phrase, or
    taken away, leaves the formula itself (`Parenthesized`); any other pair
    that is accepted may regroup the formula, and still the identities, the
    number of columns and the atoms are what they were.
-/

namespace TruthTables

-- ── What the symbols count ────────────────────────────────────────────────

namespace Symbol

/-- Whether the symbol is a parenthesis. -/
def isParenthesis : Symbol → Bool
  | .lparen | .rparen => true
  | _ => false

/-- Whether the symbol is a connective. -/
def isConnective : Symbol → Bool
  | .connective _ => true
  | _ => false

/-- The symbols that are no parentheses. -/
def unparenthesized (ss : List Symbol) : List Symbol := ss.filter (!·.isParenthesis)

@[simp] theorem unparenthesized_append (ss ts : List Symbol) :
    unparenthesized (ss ++ ts) = unparenthesized ss ++ unparenthesized ts :=
  List.filter_append ss ts

@[simp] theorem unparenthesized_lparen (ss : List Symbol) :
    unparenthesized (.lparen :: ss) = unparenthesized ss := rfl

@[simp] theorem unparenthesized_rparen (ss : List Symbol) :
    unparenthesized (.rparen :: ss) = unparenthesized ss := rfl

@[simp] theorem unparenthesized_connective (c : Connective) (ss : List Symbol) :
    unparenthesized (.connective c :: ss) = .connective c :: unparenthesized ss := rfl

@[simp] theorem unparenthesized_letter (c : Char) (ss : List Symbol) :
    unparenthesized (.letter c :: ss) = .letter c :: unparenthesized ss := rfl

@[simp] theorem unparenthesized_nil : unparenthesized [] = [] := rfl

theorem countP_isConnective_unparenthesized (ss : List Symbol) :
    (unparenthesized ss).countP isConnective = ss.countP isConnective := by
  induction ss with
  | nil => rfl
  | cons x ss ih => cases x <;> simp [List.countP_cons, isConnective, ih]

theorem filterMap_atomName?_unparenthesized (ss : List Symbol) :
    (unparenthesized ss).filterMap atomName? = ss.filterMap atomName? := by
  induction ss with
  | nil => rfl
  | cons x ss ih => cases x <;> simp [List.filterMap_cons, atomName?, ih]

end Symbol

namespace Stratum.Derives

variable {s : Stratum} {ss : List Symbol} {f : Formula}

/-- One node for each symbol that is no parenthesis. -/
theorem size_eq (h : s.Derives ss f) : f.size = (Symbol.unparenthesized ss).length := by
  induction h with
  | single _ ih => exact ih
  | join _ _ ihf ihg =>
      simp only [Formula.size, ihf, ihg, Symbol.unparenthesized_append,
        Symbol.unparenthesized_connective, List.length_append, List.length_cons]
      omega
  | neg _ ih => simp [Formula.size, ih]
  | letter c => rfl
  | paren _ ih => simpa using ih

/-- One column for each connective. -/
theorem length_subformulas (h : s.Derives ss f) :
    f.subformulas.length = ss.countP Symbol.isConnective := by
  induction h with
  | single _ ih => exact ih
  | join _ _ ihf ihg =>
      simp only [Formula.subformulas, List.length_append, List.length_singleton, ihf, ihg,
        List.countP_append, List.countP_cons, Symbol.isConnective, if_true]
      omega
  | neg _ ih => simp [Formula.subformulas, List.countP_cons, Symbol.isConnective, ih]
  | letter c => rfl
  | paren _ ih => simpa [List.countP_cons, Symbol.isConnective] using ih

/-- One leaf for each letter, in the same order. -/
theorem leafNames_eq (h : s.Derives ss f) : f.leafNames = ss.filterMap Symbol.atomName? := by
  induction h with
  | single _ ih => exact ih
  | join _ _ ihf ihg =>
      simp [Formula.leafNames, List.filterMap_cons, Symbol.atomName?, ihf, ihg]
  | neg _ ih => simp [Formula.leafNames, List.filterMap_cons, Symbol.atomName?, ih]
  | letter c => rfl
  | paren _ ih => simpa [List.filterMap_cons, Symbol.atomName?] using ih

end Stratum.Derives

-- ── Numbered from zero ────────────────────────────────────────────────────

namespace Formula

/-- Both roots are numbered, the first one lower. -/
def Before (f g : Formula) : Prop := ∃ i j : Int, f.id = some i ∧ g.id = some j ∧ i < j

/-- The root is the last node to be numbered. -/
theorem id_numberFrom (f : Formula) (start : Int) :
    (f.numberFrom start).id = some (start + f.size - 1) := by
  cases f with
  | atom name i => simp [numberFrom, id, size]
  | neg f i =>
      simp only [numberFrom, id, size]
      congr 1
      omega
  | bin op l r i =>
      simp only [numberFrom, id, size]
      congr 1
      omega

/-- Every node gets one of the identities that are handed out. -/
theorem exists_id_of_mem_nodes {f x : Formula} {start : Int}
    (hx : x ∈ (f.numberFrom start).nodes) :
    ∃ k : Int, x.id = some k ∧ start ≤ k ∧ k < start + f.size := by
  have hid : x.id ∈ (idsFrom start f.size).map some := by
    rw [← map_id_nodes]
    exact List.mem_map_of_mem hx
  obtain ⟨k, hk, hsome⟩ := List.mem_map.mp hid
  obtain ⟨n, hn, rfl⟩ := List.mem_map.mp hk
  have hlt : n < f.size := List.mem_range.mp hn
  exact ⟨start + n, hsome.symm, by omega, by omega⟩

/-- An operand is numbered before the node it belongs to. -/
theorem before_of_mem_operands (f : Formula) :
    ∀ start : Int, ∀ p ∈ (f.numberFrom start).nodes, ∀ c ∈ p.operands, c.Before p := by
  induction f with
  | atom name i =>
      intro start p hp c hc
      obtain rfl := List.mem_singleton.mp hp
      cases hc
  | neg f i ih =>
      intro start p hp c hc
      rcases List.mem_append.mp hp with hp | hp
      · exact ih start p hp c hc
      · obtain rfl := List.mem_singleton.mp hp
        obtain rfl := List.mem_singleton.mp hc
        exact ⟨_, _, id_numberFrom f start, rfl, by omega⟩
  | bin op l r i ihl ihr =>
      intro start p hp c hc
      rcases List.mem_append.mp hp with hp | hp
      · rcases List.mem_append.mp hp with hp | hp
        · exact ihl start p hp c hc
        · exact ihr (start + l.size) p hp c hc
      · obtain rfl := List.mem_singleton.mp hp
        rcases List.mem_cons.mp hc with rfl | hc
        · exact ⟨_, _, id_numberFrom l start, rfl, by omega⟩
        · obtain rfl := List.mem_singleton.mp hc
          exact ⟨_, _, id_numberFrom r _, rfl, by omega⟩

/-- The left subtree of a node is numbered before the right one. -/
theorem before_of_mem_sides (f : Formula) :
    ∀ (start : Int) (op : BinOp) (l r : Formula) (i : NodeId),
      .bin op l r i ∈ (f.numberFrom start).nodes → ∀ x ∈ l.nodes, ∀ y ∈ r.nodes, x.Before y := by
  induction f with
  | atom name i =>
      intro start op l r j hp
      cases List.mem_singleton.mp hp
  | neg f i ih =>
      intro start op l r j hp
      rcases List.mem_append.mp hp with hp | hp
      · exact ih start op l r j hp
      · cases List.mem_singleton.mp hp
  | bin op' l' r' i ihl ihr =>
      intro start op l r j hp
      rcases List.mem_append.mp hp with hp | hp
      · rcases List.mem_append.mp hp with hp | hp
        · exact ihl start op l r j hp
        · exact ihr (start + l'.size) op l r j hp
      · cases List.mem_singleton.mp hp
        intro x hx y hy
        obtain ⟨a, ha, -, hlt⟩ := exists_id_of_mem_nodes hx
        obtain ⟨b, hb, hle, -⟩ := exists_id_of_mem_nodes hy
        exact ⟨a, b, ha, hb, by omega⟩

/-- The identities are the post-order numbering of `m` nodes from zero. -/
structure NumberedInPostorder (f : Formula) (m : Nat) : Prop where
  /-- Read in post-order they are 0, 1, and so on. -/
  consecutive : f.nodes.map id = (List.range m).map fun k : Nat => some (k : Int)
  distinct : (f.nodes.map id).Nodup
  /-- Every node is numbered after its operands. -/
  upward : ∀ p ∈ f.nodes, ∀ c ∈ p.operands, c.Before p
  /-- The left subtree of every node is numbered before the right one. -/
  rightward : ∀ (op : BinOp) (l r : Formula) (i : NodeId), .bin op l r i ∈ f.nodes →
    ∀ x ∈ l.nodes, ∀ y ∈ r.nodes, x.Before y
  /-- The root is numbered last. -/
  root : f.id = some ((m : Int) - 1)

/-- Numbering a formula numbers its nodes in post-order. -/
theorem numberedInPostorder_number (f : Formula) : f.number.NumberedInPostorder f.size := by
  have hids : f.number.nodes.map id = (List.range f.size).map fun k : Nat => some (k : Int) := by
    rw [number, map_id_nodes, idsFrom, List.map_map]
    refine List.map_congr_left fun k _ => congrArg some ?_
    exact Int.zero_add _
  refine ⟨hids, ?_, before_of_mem_operands f 0, before_of_mem_sides f 0, ?_⟩
  · rw [hids]
    refine List.Pairwise.map _ ?_ (List.nodup_range (n := f.size))
    intro a b hab heq
    exact hab (Int.ofNat.inj (Option.some.inj heq))
  · rw [number, id_numberFrom, Int.zero_add]

/-- Numbering keeps the number of columns. -/
theorem length_subformulas_numberFrom (f : Formula) :
    ∀ start : Int, (f.numberFrom start).subformulas.length = f.subformulas.length := by
  induction f with
  | atom name i =>
      intro start
      rfl
  | neg f i ih =>
      intro start
      simp only [numberFrom, subformulas, List.length_append, ih, List.length_singleton]
  | bin op l r i ihl ihr =>
      intro start
      simp only [numberFrom, subformulas, List.length_append, ihl, ihr, List.length_singleton]

end Formula

-- ── Redundant parentheses ─────────────────────────────────────────────────

namespace Stratum

/-- The second sequence is the first, a phrase of the stratum, with pairs of
    parentheses put around any of its phrases. -/
inductive Parenthesized : Stratum → List Symbol → List Symbol → Prop where
  | pair {s : Stratum} {ss ts : List Symbol} :
      Parenthesized s ss ts → Parenthesized s ss (.lparen :: (ts ++ [.rparen]))
  | single {op : BinOp} {ss ts : List Symbol} :
      Parenthesized (rightOf op) ss ts → Parenthesized (chain op) ss ts
  | join {op : BinOp} {ss ss' ts ts' : List Symbol} :
      Parenthesized (chain op) ss ss' → Parenthesized (rightOf op) ts ts' →
      Parenthesized (chain op) (ss ++ .connective (.bin op) :: ts)
        (ss' ++ .connective (.bin op) :: ts')
  | neg {ss ts : List Symbol} :
      Parenthesized operand ss ts →
      Parenthesized operand (.connective .not :: ss) (.connective .not :: ts)
  | letter (c : Char) : Parenthesized operand [.letter c] [.letter c]
  | paren {ss ts : List Symbol} :
      Parenthesized whole ss ts →
      Parenthesized operand (.lparen :: (ss ++ [.rparen])) (.lparen :: (ts ++ [.rparen]))

/-- With the pairs and without them the symbols spell one formula. -/
theorem Parenthesized.derives {s : Stratum} {ss ts : List Symbol} (h : s.Parenthesized ss ts) :
    ∃ f, s.Derives ss f ∧ s.Derives ts f := by
  induction h with
  | @pair s ss ts _ ih =>
      obtain ⟨f, hss, hts⟩ := ih
      have hwhole : whole.Derives ts f := hts.loosen s.strength_pos
      exact ⟨f, hss, hwhole.paren.loosen s.strength_le_five⟩
  | single _ ih =>
      obtain ⟨f, hss, hts⟩ := ih
      exact ⟨f, hss.single, hts.single⟩
  | join _ _ ihl ihr =>
      obtain ⟨f, hss, hss'⟩ := ihl
      obtain ⟨g, hts, hts'⟩ := ihr
      exact ⟨_, hss.join hts, hss'.join hts'⟩
  | neg _ ih =>
      obtain ⟨f, hss, hts⟩ := ih
      exact ⟨_, hss.neg, hts.neg⟩
  | letter c => exact ⟨_, .letter c, .letter c⟩
  | paren _ ih =>
      obtain ⟨f, hss, hts⟩ := ih
      exact ⟨f, hss.paren, hts.paren⟩

end Stratum

-- ── Whole texts ───────────────────────────────────────────────────────────

namespace Formula

/-- What the tokens of a text tell about the formula that it spells. -/
structure ReadOff (ts : List Token) (f : Formula) : Prop where
  /-- There is one identity for each token that is no parenthesis. -/
  numbered : f.NumberedInPostorder (Symbol.unparenthesized (ts.map Token.symbol)).length
  /-- The table has a column for each connective. -/
  columns : ∃ t, Table.ofFormula f = .ok t ∧
    t.columns.length = (ts.map Token.symbol).countP Symbol.isConnective
  ascending : f.atoms.Pairwise (· < ·)
  /-- The atoms are the names that stand among the tokens. -/
  mem_atoms : ∀ name, name ∈ f.atoms ↔ ∃ t ∈ ts, t.symbol.atomName? = some name

theorem readOff_number {ts : List Token} {f : Formula}
    (h : Stratum.whole.Derives (ts.map Token.symbol) f) : ReadOff ts f.number := by
  refine ⟨?_, ⟨_, Table.ofFormula_eq_filled f.number, ?_⟩, Ascending.pairwise_ofList _, ?_⟩
  · rw [← h.size_eq]
    exact numberedInPostorder_number f
  · rw [← h.length_subformulas]
    exact length_subformulas_numberFrom f 0
  · intro name
    rw [atoms, Ascending.mem_ofList, leafNames_number, h.leafNames_eq]
    simp [List.mem_filterMap]

/-- An accepted text spells a formula of the grammar, and numbering it gives
    the formula whose identities the reader hands out on the way. -/
theorem exists_derives_of_ofText {text : String} {f : Formula} (h : ofText text = .ok f) :
    ∃ (ts : List Token) (g : Formula), Token.scan text = .ok ts ∧ Parser.issue ts = .ok f ∧
      Stratum.whole.Derives (ts.map Token.symbol) g ∧ f = g.number := by
  obtain ⟨ts, hts, hf⟩ := ofText_eq_ok_iff.mp h
  obtain ⟨s, g, hs, hg, rfl⟩ := (ofTokens_eq_ok_iff ts f).mp hf
  refine ⟨ts, g, hts, ?_, (Parser.reads_finish_iff ts g).mp ⟨s, hs, hg⟩, rfl⟩
  rw [Parser.issue_eq_ofTokens, hf]

theorem ofText_of_derives {text : String} {ts : List Token} {f : Formula}
    (hts : Token.scan text = .ok ts) (h : Stratum.whole.Derives (ts.map Token.symbol) f) :
    ofText text = .ok f.number := by
  obtain ⟨s, hs, hf⟩ := (Parser.reads_finish_iff ts f).mpr h
  exact ofText_eq_ok_iff.mpr ⟨ts, hts, (ofTokens_eq_ok_iff ts _).mpr ⟨s, f, hs, hf, rfl⟩⟩

/-- **The tokens tell the numbering.**  Of an accepted text, the identities
    handed out while it is read are the post-order numbering of as many nodes
    as there are tokens that are no parentheses; the connectives among them
    count the columns and the letters are the atoms.  Putting pairs of
    parentheses around phrases, or taking them away, leaves the formula with
    every identity, and so does any change of the text that leaves the tree.
    Parentheses that regroup the formula leave the identities, the number of
    columns and the atoms. -/
theorem ofText_readOff (text : String) (f : Formula) (h : ofText text = .ok f) :
    ∃ ts, Token.scan text = .ok ts ∧ Parser.issue ts = .ok f ∧ ReadOff ts f ∧
      (∀ text' ts', Token.scan text' = .ok ts' →
        Stratum.whole.Parenthesized (ts.map Token.symbol) (ts'.map Token.symbol) ∨
          Stratum.whole.Parenthesized (ts'.map Token.symbol) (ts.map Token.symbol) →
        ofText text' = .ok f) ∧
      (∀ text' f', ofText text' = .ok f' → f'.bare = f.bare → f' = f) ∧
      ∀ text' ts' f', Token.scan text' = .ok ts' → ofText text' = .ok f' →
        Symbol.unparenthesized (ts'.map Token.symbol) =
          Symbol.unparenthesized (ts.map Token.symbol) →
        f'.nodes.map id = f.nodes.map id ∧ f'.id = f.id ∧
          f'.subformulas.length = f.subformulas.length ∧ f'.atoms = f.atoms := by
  obtain ⟨ts, g, hts, hissue, hg, rfl⟩ := exists_derives_of_ofText h
  refine ⟨ts, hts, hissue, readOff_number hg, ?_, ?_, ?_⟩
  · intro text' ts' hts' hparen
    rcases hparen with hparen | hparen
    · obtain ⟨g', hss, hss'⟩ := hparen.derives
      rw [hg.unique hss]
      exact ofText_of_derives hts' hss'
    · obtain ⟨g', hss', hss⟩ := hparen.derives
      rw [hg.unique hss]
      exact ofText_of_derives hts' hss'
  · intro text' f' hf' hbare
    rw [← number_eq_of_ofText hf', ← number_bare f', hbare, number_bare, number_eq_of_ofText h]
  · intro text' ts' f' hts' hf' hsame
    obtain ⟨us, g', hus, -, hg', rfl⟩ := exists_derives_of_ofText hf'
    cases hts'.symm.trans hus
    have hsize : g'.size = g.size := by rw [hg'.size_eq, hg.size_eq, hsame]
    have hcolumns : g'.subformulas.length = g.subformulas.length := by
      rw [hg'.length_subformulas, hg.length_subformulas,
        ← Symbol.countP_isConnective_unparenthesized, hsame,
        Symbol.countP_isConnective_unparenthesized]
    have hleaves : g'.leafNames = g.leafNames := by
      rw [hg'.leafNames_eq, hg.leafNames_eq, ← Symbol.filterMap_atomName?_unparenthesized,
        hsame, Symbol.filterMap_atomName?_unparenthesized]
    refine ⟨?_, ?_, ?_, ?_⟩
    · simp only [number, map_id_nodes, hsize]
    · simp only [number, id_numberFrom, hsize]
    · simp only [number, length_subformulas_numberFrom, hcolumns]
    · rw [atoms, atoms, leafNames_number, leafNames_number, hleaves]

/-- A pair of parentheses around an operand leaves the three nodes as they are
    numbered. -/
theorem ofText_readOff_pair :
    ∃ f, ofText "P & Q" = .ok f ∧ ofText "(P) & Q" = .ok f ∧ f.NumberedInPostorder 3 := by
  obtain ⟨ts, hts, -, hread, hparen, -, -⟩ := ofText_readOff "P & Q" _ rfl
  cases hts
  have hleft : (Stratum.chain .and).Parenthesized [.letter 'P'] [.lparen, .letter 'P', .rparen] :=
    .single (.pair (.letter 'P'))
  have hpair : Stratum.whole.Parenthesized _ _ :=
    .single (.single (.single (hleft.join (.letter 'Q'))))
  exact ⟨_, rfl, hparen "(P) & Q" _ rfl (.inl hpair), hread.numbered⟩

end Formula

end TruthTables
