import TruthTables.Generator
import TruthTables.Proofs.Lookup
import TruthTables.Proofs.Numbering
import TruthTables.Proofs.Parsing
import TruthTables.Proofs.Truth

/-!
# Columns — where a column finds its operands

    A column of a table names the columns it is computed from.  Operands are
    looked up by identity, while the columns stand in post-order.  Here the
    two are brought together.  The columns of a subformula are a block that
    ends at its own column (`block_of_getElem?`), so its operands stand right
    in front of it (`getElem?_of_mem_placed`); in a numbered formula
    identities are distinct, so the look-up finds just these places
    (`Formula.subformulaColumn?_eq`).  And the cells of a column are what its
    connective makes of the cells found there (`computedFrom_filled`).
-/

namespace TruthTables

-- ── Blocks of a list ──────────────────────────────────────────────────────

/-- `block` stands in `whole` in one piece, and `stop` items of `whole` end
    with it. -/
def EndsAt {α : Type} (block whole : List α) (stop : Nat) : Prop :=
  ∃ before after, whole = before ++ (block ++ after) ∧ before.length + block.length = stop

namespace EndsAt

variable {α : Type} {xs ys whole : List α} {x : α} {stop : Nat}

theorem refl (xs : List α) : EndsAt xs xs xs.length :=
  ⟨[], [], by simp, by simp⟩

/-- The second part of a block ends where the block does. -/
theorem right (h : EndsAt (xs ++ ys) whole stop) : EndsAt ys whole stop := by
  obtain ⟨before, after, hw, hlen⟩ := h
  refine ⟨before ++ xs, after, by rw [hw]; simp, ?_⟩
  rw [List.length_append] at hlen ⊢
  omega

/-- The first part of a block ends where the second one begins. -/
theorem left (h : EndsAt (xs ++ ys) whole stop) : EndsAt xs whole (stop - ys.length) := by
  obtain ⟨before, after, hw, hlen⟩ := h
  refine ⟨before, ys ++ after, by rw [hw]; simp, ?_⟩
  rw [List.length_append] at hlen
  omega

/-- A block inside a longer list stands there too. -/
theorem append_right (h : EndsAt xs whole stop) (ys : List α) : EndsAt xs (whole ++ ys) stop := by
  obtain ⟨before, after, hw, hlen⟩ := h
  exact ⟨before, after ++ ys, by rw [hw]; simp, hlen⟩

theorem append_left (h : EndsAt xs whole stop) (ys : List α) :
    EndsAt xs (ys ++ whole) (ys.length + stop) := by
  obtain ⟨before, after, hw, hlen⟩ := h
  refine ⟨ys ++ before, after, by rw [hw]; simp, ?_⟩
  rw [List.length_append]
  omega

/-- The last item of a block is the last one of those that end with it. -/
theorem getElem? (h : EndsAt (xs ++ [x]) whole stop) :
    0 < stop ∧ whole[stop - 1]? = some x := by
  obtain ⟨before, after, hw, hlen⟩ := h
  rw [List.length_append, List.length_singleton] at hlen
  refine ⟨by omega, ?_⟩
  have hidx : stop - 1 = (before ++ xs).length := by
    rw [List.length_append]
    omega
  have hw' : whole = before ++ xs ++ x :: after := by
    rw [hw]
    simp
  rw [hidx, hw', List.getElem?_append_right (Nat.le_refl _), Nat.sub_self]
  rfl

end EndsAt

-- ── The columns of a subformula ───────────────────────────────────────────

namespace Formula

/-- An atom has no column. -/
theorem atom_not_mem_subformulas {name : String} {i : NodeId} (f : Formula) :
    .atom name i ∉ f.subformulas := by
  induction f with
  | atom name' i' => exact List.not_mem_nil
  | neg f i' ih =>
      intro h
      rcases List.mem_append.mp h with h | h
      · exact ih h
      · cases List.mem_singleton.mp h
  | bin op l r i' ihl ihr =>
      intro h
      rcases List.mem_append.mp h with h | h
      · rcases List.mem_append.mp h with h | h
        · exact ihl h
        · exact ihr h
      · cases List.mem_singleton.mp h

/-- A formula that is no atom is its own last column. -/
theorem subformulas_eq_concat {f : Formula} (h : f.isAtomic = false) :
    ∃ front, f.subformulas = front ++ [f] := by
  cases f with
  | atom name i => cases h
  | neg g i => exact ⟨g.subformulas, rfl⟩
  | bin op l r i => exact ⟨l.subformulas ++ r.subformulas, rfl⟩

/-- Behind the columns of its operands a formula has only its own. -/
theorem block_of_last {f g : Formula} {front : List Formula} {c : Nat}
    (hf : f.subformulas = front ++ [f]) (hle : front.length ≤ c)
    (hc : f.subformulas[c]? = some g) : EndsAt g.subformulas f.subformulas (c + 1) := by
  have hlt := (List.getElem?_eq_some_iff.mp hc).1
  have hlen : f.subformulas.length = front.length + 1 := by
    rw [hf, List.length_append, List.length_singleton]
  have hcfront : c = front.length := by omega
  rw [hf, hcfront, List.getElem?_append_right (Nat.le_refl _), Nat.sub_self] at hc
  obtain rfl : f = g := Option.some.inj hc
  rw [hcfront, ← hlen]
  exact EndsAt.refl _

/-- The columns of the formula in column `c` are the ones up to `c`. -/
theorem block_of_getElem? {f g : Formula} :
    ∀ {c : Nat}, f.subformulas[c]? = some g → EndsAt g.subformulas f.subformulas (c + 1) := by
  induction f with
  | atom name i =>
      intro c hc
      cases hc
  | neg f i ih =>
      intro c hc
      have hf : (neg f i).subformulas = f.subformulas ++ [neg f i] := rfl
      by_cases hlt : c < f.subformulas.length
      · rw [hf, List.getElem?_append_left hlt] at hc
        exact (ih hc).append_right _
      · exact block_of_last hf (by omega) hc
  | bin op l r i ihl ihr =>
      intro c hc
      have hf : (bin op l r i).subformulas = l.subformulas ++ r.subformulas ++ [bin op l r i] := rfl
      by_cases hlt : c < (l.subformulas ++ r.subformulas).length
      · rw [hf, List.getElem?_append_left hlt] at hc
        refine EndsAt.append_right ?_ _
        by_cases hl : c < l.subformulas.length
        · rw [List.getElem?_append_left hl] at hc
          exact (ihl hc).append_right _
        · rw [List.getElem?_append_right (by omega)] at hc
          have hshift := (ihr hc).append_left l.subformulas
          have hsum : l.subformulas.length + (c - l.subformulas.length + 1) = c + 1 := by omega
          rw [hsum] at hshift
          exact hshift
      · exact block_of_last hf (by omega) hc

/-- The operands of the connective in column `c`, each with the column that
    is its own if it is no atom: the columns of the last operand end right in
    front of `c`, and those of a left operand in front of these. -/
def placed (c : Nat) : Formula → List (Formula × Nat)
  | .atom .. => []
  | .neg f _ => [(f, c - 1)]
  | .bin _ l r _ => [(l, c - 1 - r.subformulas.length), (r, c - 1)]

/-- The names at the leaves of an operand are at leaves of the formula. -/
theorem leafNames_of_mem_operands {g o : Formula} (h : o ∈ g.operands) :
    ∀ name ∈ o.leafNames, name ∈ g.leafNames := by
  intro name hn
  cases g with
  | atom name i => cases h
  | neg f i =>
      obtain rfl := List.mem_singleton.mp h
      exact hn
  | bin op l r i =>
      rcases List.mem_cons.mp h with rfl | h
      · exact List.mem_append.mpr (.inl hn)
      · obtain rfl := List.mem_singleton.mp h
        exact List.mem_append.mpr (.inr hn)

theorem operands_eq_map_placed (c : Nat) (g : Formula) :
    g.operands = (g.placed c).map Prod.fst := by
  cases g <;> rfl

/-- An operand that is no atom stands in its place, left of the column. -/
theorem getElem?_of_mem_placed {f g o : Formula} {c k : Nat}
    (hc : f.subformulas[c]? = some g) (ho : (o, k) ∈ g.placed c) (hna : o.isAtomic = false) :
    k < c ∧ f.subformulas[k]? = some o := by
  have hblock := block_of_getElem? hc
  obtain ⟨front, hfront⟩ := subformulas_eq_concat hna
  cases g with
  | atom name i => cases ho
  | neg g i =>
      obtain ⟨rfl, rfl⟩ := Prod.mk.inj (List.mem_singleton.mp ho)
      have hop := hblock.left
      rw [hfront] at hop
      obtain ⟨hpos, hget⟩ := hop.getElem?
      rw [List.length_singleton] at hpos hget
      exact ⟨by omega, hget⟩
  | bin op l r i =>
      have hops := hblock.left
      rw [List.length_singleton, Nat.add_sub_cancel] at hops
      rcases List.mem_cons.mp ho with heq | ho
      · obtain ⟨rfl, rfl⟩ := Prod.mk.inj heq
        have hleft := hops.left
        rw [hfront] at hleft
        obtain ⟨hpos, hget⟩ := hleft.getElem?
        rw [Nat.sub_right_comm] at hget
        exact ⟨by omega, hget⟩
      · obtain ⟨rfl, rfl⟩ := Prod.mk.inj (List.mem_singleton.mp ho)
        have hright := hops.right
        rw [hfront] at hright
        obtain ⟨hpos, hget⟩ := hright.getElem?
        exact ⟨by omega, hget⟩

end Formula

-- ── The cells of a column ─────────────────────────────────────────────────

namespace Table

/-- The cell of a column in a row. -/
def valueAt (t : Table) (c r : Nat) : Option Bool := (t.values[c]?).bind (·[r]?)

/-- What stands for an operand in a row: an atom has the datum that the row binds to
    it, and any other operand the truth value in its column. -/
def operandValue (t : Table) (r : Nat) : Formula × Nat → Option Datum
  | (.atom name _, _) => (t.rows[r]?).bind (·.lookup name)
  | (_, k) => (t.valueAt k r).map .truth

/-- The value that the root's connective makes of values of its operands: it is true
    when what the connective says of them holds. -/
def Combines : Formula → List Bool → Bool → Prop
  | .neg .., [x], z => z = true ↔ ¬ x = true
  | .bin op .., [x, y], z => z = true ↔ op.Says (x = true) (y = true)
  | _, _, _ => False

/-- Column `c`, headed by `g`, is computed from exactly what it names. -/
structure ComputedFrom (t : Table) (c : Nat) (g : Formula) : Prop where
  /-- The columns named are those of the operands that are no atoms. -/
  columns : ∀ i, i ∈ (g.dependencies t.atoms t.columns).columns ↔
    ∃ o k, (o, k) ∈ g.placed c ∧ o.isAtomic = false ∧ i = ((k : Nat) : Int)
  /-- There these operands stand, left of the column. -/
  placed : ∀ o k, (o, k) ∈ g.placed c → o.isAtomic = false → k < c ∧ t.columns[k]? = some o
  /-- The atoms named are those among the operands. -/
  atoms : ∀ i, i ∈ (g.dependencies t.atoms t.columns).atoms ↔
    ∃ name id k, .atom name id ∈ g.operands ∧ t.atoms[k]? = some name ∧ i = ((k : Nat) : Int)
  /-- Each of them has a column. -/
  named : ∀ name id, .atom name id ∈ g.operands → name ∈ t.atoms
  /-- Every cell is the connective applied to the cells of the operands. -/
  cells : ∀ r, r < t.rows.length → ∃ xs x,
    (g.placed c).map (t.operandValue r) = xs.map (fun b => some (.truth b)) ∧
      Combines g xs x ∧ t.valueAt c r = some x

theorem valueAt_filled {root g : Formula} {a : Assignment} {c r : Nat}
    (hc : (filled root).columns[c]? = some g) (hr : (filled root).rows[r]? = some a) :
    (filled root).valueAt c r = some (g.truth a.valuation) := by
  rw [valueAt, getElem?_filled_values hc, Option.bind_some, List.getElem?_map, hr]
  rfl

/-- An operand of a column has its classical value in the row. -/
theorem operandValue_filled {root g o : Formula} {a : Assignment} {c k r : Nat}
    (hc : (filled root).columns[c]? = some g) (hr : (filled root).rows[r]? = some a)
    (ho : (o, k) ∈ g.placed c) :
    (filled root).operandValue r (o, k) = some (.truth (o.truth a.valuation)) := by
  have hcolumn : o.isAtomic = false →
      ((filled root).valueAt k r).map Datum.truth = some (.truth (o.truth a.valuation)) := by
    intro hna
    rw [valueAt_filled (Formula.getElem?_of_mem_placed hc ho hna).2 hr]
    rfl
  cases o with
  | atom name i =>
      have hop : .atom name i ∈ g.operands := by
        rw [Formula.operands_eq_map_placed c]
        exact List.mem_map_of_mem ho
      have hleaf : name ∈ g.leafNames :=
        Formula.leafNames_of_mem_operands hop name (List.mem_singleton.mpr rfl)
      have hname : name ∈ root.atoms :=
        Ascending.mem_ofList.mpr (Formula.leafNames_subset (List.mem_of_getElem? hc) name hleaf)
      rw [operandValue, hr, Option.bind_some]
      exact Assignment.lookup_of_mem_rows (List.mem_of_getElem? hr) hname
  | neg f i => exact hcolumn rfl
  | bin op l r' i => exact hcolumn rfl

/-- The truth of a column's formula is what its connective makes of the truth of
    its operands. -/
theorem combines_truth {root g : Formula} {c : Nat} (hc : root.subformulas[c]? = some g)
    (v : String → Bool) :
    Combines g ((g.placed c).map fun p => p.1.truth v) (g.truth v) := by
  cases g with
  | atom name i => exact absurd (List.mem_of_getElem? hc) (Formula.atom_not_mem_subformulas root)
  | neg f i =>
      show (!f.truth v) = true ↔ ¬ f.truth v = true
      rw [Bool.not_eq_true', Bool.not_eq_true]
  | bin op l r i => exact op.apply_iff (l.truth v) (r.truth v)

/-- In the table of a formula whose columns have distinct identities, every
    column is computed from what it names. -/
theorem computedFrom_filled {root g : Formula} {c : Nat}
    (hids : (root.subformulas.map Formula.id).Nodup)
    (hc : (filled root).columns[c]? = some g) : (filled root).ComputedFrom c g where
  columns := by
    intro i
    rw [Formula.mem_dependencies_columns]
    constructor
    · rintro ⟨o, k, ho, hk, rfl⟩
      rw [Formula.operands_eq_map_placed c] at ho
      obtain ⟨⟨o', k'⟩, hplaced, rfl⟩ := List.mem_map.mp ho
      have hna : o'.isAtomic = false := by
        cases o' with
        | atom name i => cases hk
        | neg f i => rfl
        | bin op l r i => rfl
      have hk' := (Formula.getElem?_of_mem_placed hc hplaced hna).2
      have hfound := Formula.subformulaColumn?_eq hids hk' hna
      obtain rfl : k' = k := Option.some.inj (hfound.symm.trans hk)
      exact ⟨o', k', hplaced, hna, rfl⟩
    · rintro ⟨o, k, hplaced, hna, rfl⟩
      have hk := (Formula.getElem?_of_mem_placed hc hplaced hna).2
      refine ⟨o, k, ?_, Formula.subformulaColumn?_eq hids hk hna, rfl⟩
      rw [Formula.operands_eq_map_placed c]
      exact List.mem_map_of_mem hplaced
  placed := fun o k ho hna => Formula.getElem?_of_mem_placed hc ho hna
  atoms := by
    intro i
    rw [Formula.mem_dependencies_atoms]
    constructor
    · rintro ⟨o, k, ho, hk, rfl⟩
      cases o with
      | atom name i => exact ⟨name, i, k, ho, getElem?_lastIndex? hk, rfl⟩
      | neg f i => cases hk
      | bin op l r i => cases hk
    · rintro ⟨name, i, k, ho, hk, rfl⟩
      exact ⟨.atom name i, k, ho,
        lastIndex?_eq_some_of_nodup (Ascending.nodup_ofList root.leafNames) hk, rfl⟩
  named := by
    intro name i ho
    refine Ascending.mem_ofList.mpr ?_
    refine Formula.leafNames_subset (List.mem_of_getElem? hc) name ?_
    exact Formula.leafNames_of_mem_operands ho name (List.mem_singleton.mpr rfl)
  cells := by
    intro r hr
    obtain ⟨a, ha⟩ : ∃ a, (filled root).rows[r]? = some a :=
      ⟨_, List.getElem?_eq_getElem hr⟩
    refine ⟨(g.placed c).map fun p => p.1.truth a.valuation, g.truth a.valuation, ?_, ?_, ?_⟩
    · rw [List.map_map]
      refine List.map_congr_left fun p hp => ?_
      exact operandValue_filled hc ha hp
    · exact combines_truth hc a.valuation
    · exact valueAt_filled hc ha

/-- The last column of a formula that is no atom is its own. -/
theorem getLast?_filled {root : Formula} (h : root.isAtomic = false) :
    (filled root).columns.getLast? = some root ∧
      (filled root).values.getLast? = some (filled root).final := by
  obtain ⟨front, hfront⟩ := Formula.subformulas_eq_concat h
  have hcols : (filled root).columns = front ++ [root] := hfront
  refine ⟨by rw [hcols, List.getLast?_concat], ?_⟩
  show ((filled root).columns.map _).getLast? = _
  rw [hcols, List.map_append, List.map_singleton, List.getLast?_concat]
  rfl

end Table

-- ── Formulas that are read or grown ───────────────────────────────────────

namespace Formula

/-- The formula is what some text is read as, or what is grown at random from
    some source over some pool of atoms. -/
inductive Produced : Formula → Prop where
  | read {text : String} {f : Formula} : ofText text = .ok f → Produced f
  | grown {σ : Type} [RandomSource σ] {depth : Int} {pool : List String} {start : Int}
      {s s' : σ} {f : Formula} : random depth pool start s = .ok (f, s') → Produced f

/-- Such a formula is numbered in post-order. -/
theorem Produced.eq_numberFrom {f : Formula} (h : f.Produced) :
    ∃ (g : Formula) (start : Int), f = g.numberFrom start := by
  cases h with
  | @read text f h =>
      obtain ⟨ts, -, hts⟩ := ofText_eq_ok_iff.mp h
      obtain ⟨s, g, -, -, rfl⟩ := (ofTokens_eq_ok_iff ts f).mp hts
      exact ⟨g, 0, rfl⟩
  | @grown σ _ depth pool start s s' f h =>
      cases pool with
      | nil => cases h
      | cons a as =>
          rw [random] at h
          generalize (grow a as depth.toNat).run s = r at h
          obtain ⟨g, s''⟩ := r
          by_cases hbroken : RandomSource.isBroken s''
          · simp only [hbroken, if_true] at h
            cases h
          · simp only [hbroken] at h
            cases h
            exact ⟨g, start, rfl⟩

/-- **Columns are filled from what they name.**  A formula that was read or
    grown has a table.  Every column of it names exactly the columns of those
    operands of its connective that are no atoms, which stand right in front
    of it, and exactly the atoms among its operands; and each of its cells is
    true exactly when what the connective says of the cells in the row that
    are named holds.  Unless the formula is an atom, the last column is its
    own. -/
theorem Produced.table_computedFrom {f : Formula} (h : f.Produced) :
    ∃ t, Table.ofFormula f = .ok t ∧
      (∀ c g, t.columns[c]? = some g → t.ComputedFrom c g) ∧
      (f.isAtomic = false → t.columns.getLast? = some f ∧ t.values.getLast? = some t.final) := by
  refine ⟨Table.filled f, Table.ofFormula_eq_filled f, ?_, Table.getLast?_filled⟩
  intro c g hc
  obtain ⟨f', start, rfl⟩ := h.eq_numberFrom
  exact Table.computedFrom_filled (nodup_ids f' start) hc

/-- In the table of "(P & Q) -> (P & Q)" the two equal subformulas keep their own
    columns, and the last column names both. -/
theorem table_computedFrom_repeated :
    ∃ f t, ofText "(P & Q) -> (P & Q)" = .ok f ∧ Table.ofFormula f = .ok t ∧
      t.columns[2]? = some f ∧ t.ComputedFrom 2 f := by
  obtain ⟨f, hf⟩ : ∃ f, ofText "(P & Q) -> (P & Q)" = .ok f := ⟨_, rfl⟩
  obtain ⟨t, ht, hcols, -⟩ := Produced.table_computedFrom (.read hf)
  have hlast : t.columns[2]? = some f := by
    cases hf
    cases ht
    rfl
  exact ⟨f, t, hf, ht, hlast, hcols 2 f hlast⟩

end Formula

end TruthTables
