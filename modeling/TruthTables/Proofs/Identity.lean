import Mathlib.Data.List.Basic
import TruthTables.Draft
import TruthTables.Proofs.Blind
import TruthTables.Proofs.Lookup
import TruthTables.Proofs.Numbering
import TruthTables.Proofs.Truth

/-!
# Identity — where the identities of nodes are seen, and where not

    Two formulas are structurally equal when they differ in identities alone.
    Nothing that a learner is shown tells them apart, with one exception: where
    a column finds its operands.

    Printing, evaluating and collecting atoms are blind to identities
    (`Blind`).  The columns of a formula with other identities are the old
    columns with other identities (`subformulas_mapIds`), so the same holds of
    its table (`Table.filled_mapIds`), and what is shown of a table is shown of
    both alike (`Table.alike_mapIds`).

    The look-up of operands does compare identities, and does nothing else with
    them.  As long as a renaming keeps different identities apart, every operand
    is found where it was found before (`dependencies_mapIds`), also where
    several nodes share an identity or have none.

    **Main result** (`observed_alike`).  All of this, for any two formulas that
    are structurally equal.
-/

namespace TruthTables

namespace Formula

-- ── Structural equality, and what is blind to identities ──────────────────

/-- Formulas are structurally equal when they have one bare tree. -/
theorem sameShape_iff_bare {f g : Formula} :
    (Draft.ofFormula f).sameShape (.ofFormula g) = true ↔ f.bare = g.bare := by
  simp only [bare]
  induction f generalizing g with
  | atom name i => cases g <;> simp [Draft.ofFormula, Draft.sameShape, mapIds]
  | neg f i ih =>
      cases g with
      | atom name j => simp [Draft.ofFormula, Draft.sameShape, mapIds]
      | neg g j => simp [Draft.ofFormula, Draft.sameShape, mapIds, ih]
      | bin op l r j => simp [Draft.ofFormula, Draft.sameShape, mapIds]
  | bin op l r i ihl ihr =>
      cases g with
      | atom name j => simp [Draft.ofFormula, Draft.sameShape, mapIds]
      | neg g j => simp [Draft.ofFormula, Draft.sameShape, mapIds]
      | bin op' l' r' j => simp [Draft.ofFormula, Draft.sameShape, mapIds, ihl, ihr, and_assoc]

theorem blind_eval (a : Assignment) : Blind (eval a) where
  atom _ _ _ := rfl
  neg _ _ h := by rw [eval, eval, h]
  bin _ _ _ _ _ _ _ hl hr := by rw [eval, eval, hl, hr]

theorem blind_truth (v : String → Bool) : Blind (truth v) where
  atom _ _ _ := rfl
  neg _ _ h := by rw [truth, truth, h]
  bin _ _ _ _ _ _ _ hl hr := by rw [truth, truth, hl, hr]

-- ── Columns with other identities ─────────────────────────────────────────

variable (rename : NodeId → NodeId)

theorem atoms_mapIds (f : Formula) : (f.mapIds rename).atoms = f.atoms :=
  congrArg Ascending.ofList (blind_leafNames.mapIds rename f)

theorem id_mapIds (f : Formula) : (f.mapIds rename).id = rename f.id := by
  cases f <;> rfl

theorem operands_mapIds (f : Formula) :
    (f.mapIds rename).operands = f.operands.map (mapIds rename) := by
  cases f <;> rfl

/-- The columns of a formula with other identities are its columns with others. -/
theorem subformulas_mapIds (f : Formula) :
    (f.mapIds rename).subformulas = f.subformulas.map (mapIds rename) := by
  induction f with
  | atom name i => rfl
  | neg f i ih =>
      simp only [mapIds, subformulas, ih, List.map_append, List.map_singleton]
  | bin op l r i ihl ihr =>
      simp only [mapIds, subformulas, ihl, ihr, List.map_append, List.map_singleton]

-- ── Looking up with other identities ──────────────────────────────────────

/-- The renaming keeps the identities of the nodes apart that are different. -/
def KeepsApart (f : Formula) : Prop :=
  ∀ x ∈ f.nodes, ∀ y ∈ f.nodes, rename x.id = rename y.id → x.id = y.id

end Formula

/-- An item is found in the same place when all items are renamed, and none of them
    gets the name of the item that is looked for. -/
theorem lastIndex?_map {α β : Type} [DecidableEq α] [DecidableEq β] {f : α → β} {x : α} :
    ∀ {ys : List α}, (∀ y ∈ ys, f x = f y → x = y) → lastIndex? (f x) (ys.map f) = lastIndex? x ys
  | [], _ => rfl
  | y :: ys, h => by
      have htail : lastIndex? (f x) (ys.map f) = lastIndex? x ys :=
        lastIndex?_map fun z hz => h z (List.mem_cons_of_mem _ hz)
      have hhead : f x = f y ↔ x = y := ⟨h y (List.mem_cons_self ..), congrArg f⟩
      rw [List.map_cons, lastIndex?, lastIndex?, htail]
      simp only [hhead]

namespace Formula

variable {rename : NodeId → NodeId}

theorem atomColumn?_mapIds (atoms : List String) (o : Formula) :
    (o.mapIds rename).atomColumn? atoms = o.atomColumn? atoms := by
  cases o <;> rfl

theorem subformulaColumn?_mapIds {columns : List Formula} {o : Formula}
    (h : ∀ c ∈ columns, rename o.id = rename c.id → o.id = c.id) :
    (o.mapIds rename).subformulaColumn? (columns.map (mapIds rename)) =
      o.subformulaColumn? columns := by
  have hids : (columns.map (mapIds rename)).map id = (columns.map id).map rename := by
    simp only [List.map_map, Function.comp_def, id_mapIds]
  have hfound : lastIndex? (o.mapIds rename).id ((columns.map (mapIds rename)).map id) =
      lastIndex? o.id (columns.map id) := by
    rw [hids, id_mapIds]
    refine lastIndex?_map fun i hi => ?_
    obtain ⟨c, hc, rfl⟩ := List.mem_map.mp hi
    exact h c hc
  cases o with
  | atom name i => rfl
  | neg f i => exact hfound
  | bin op l r i => exact hfound

/-- When the identities of operands and columns are kept apart, the operands are found
    where they were. -/
theorem dependencies_mapIds {atoms : List String} {columns : List Formula} {g : Formula}
    (h : ∀ o ∈ g.operands, ∀ c ∈ columns, rename o.id = rename c.id → o.id = c.id) :
    (g.mapIds rename).dependencies atoms (columns.map (mapIds rename)) =
      g.dependencies atoms columns := by
  have hatoms : (g.mapIds rename).operands.filterMap (atomColumn? atoms) =
      g.operands.filterMap (atomColumn? atoms) := by
    rw [operands_mapIds, List.filterMap_map]
    exact List.filterMap_congr fun o _ => atomColumn?_mapIds atoms o
  have hcolumns : (g.mapIds rename).operands.filterMap
      (subformulaColumn? (columns.map (mapIds rename))) =
        g.operands.filterMap (subformulaColumn? columns) := by
    rw [operands_mapIds, List.filterMap_map]
    exact List.filterMap_congr fun o ho => subformulaColumn?_mapIds (h o ho)
  rw [dependencies, dependencies, hatoms, hcolumns]

theorem self_mem_nodes (f : Formula) : f ∈ f.nodes := by
  cases f <;> simp [nodes]

/-- The operands of a node are nodes. -/
theorem mem_nodes_of_mem_operands {f p o : Formula} (hp : p ∈ f.nodes) (ho : o ∈ p.operands) :
    o ∈ f.nodes := by
  induction f with
  | atom name i =>
      obtain rfl := List.mem_singleton.mp hp
      cases ho
  | neg f i ih =>
      refine List.mem_append.mpr (.inl ?_)
      rcases List.mem_append.mp hp with hp | hp
      · exact ih hp
      · obtain rfl := List.mem_singleton.mp hp
        obtain rfl := List.mem_singleton.mp ho
        exact self_mem_nodes _
  | bin op l r i ihl ihr =>
      refine List.mem_append.mpr (.inl (List.mem_append.mpr ?_))
      rcases List.mem_append.mp hp with hp | hp
      · exact (List.mem_append.mp hp).imp ihl ihr
      · obtain rfl := List.mem_singleton.mp hp
        rcases List.mem_cons.mp ho with rfl | ho
        · exact .inl (self_mem_nodes _)
        · obtain rfl := List.mem_singleton.mp ho
          exact .inr (self_mem_nodes _)

end Formula

-- ── Tables with other identities ──────────────────────────────────────────

theorem itemAt_map {α β : Type} (f : α → β) (xs : List α) (i : Int) :
    itemAt (xs.map f) i = (itemAt xs i).map f := by
  rw [itemAt, itemAt, List.length_map]
  cases position? xs.length i with
  | none => rfl
  | some k =>
      rw [Option.bind_some, Option.bind_some, List.getElem?_map]
      cases xs[k]? <;> rfl

theorem mem_of_itemAt {α : Type} {xs : List α} {i : Int} {x : α} (h : itemAt xs i = .ok x) :
    x ∈ xs := by
  rw [itemAt] at h
  split at h
  · rename_i y hy
    cases h
    obtain ⟨k, -, hk⟩ := Option.bind_eq_some_iff.mp hy
    exact List.mem_of_getElem? hk
  · cases h

theorem mapM_itemAt_map {α β : Type} (f : α → β) (xs : List α) (is : List Int) :
    is.mapM (itemAt (xs.map f)) = (is.mapM (itemAt xs)).map (List.map f) := by
  induction is with
  | nil => rfl
  | cons i is ih =>
      rw [List.mapM_cons, List.mapM_cons, ih, itemAt_map]
      cases itemAt xs i with
      | error e => rfl
      | ok x => cases is.mapM (itemAt xs) <;> rfl

/-- Identities do not show in the words for dependencies. -/
theorem Dependencies.describe_mapIds (d : Dependencies) (atoms : List String)
    (columns : List Formula) (rename : NodeId → NodeId) :
    d.describe atoms (columns.map (Formula.mapIds rename)) = d.describe atoms columns := by
  have hlabels : ∀ labels : List Formula,
      (labels.map (Formula.mapIds rename)).map Formula.unicode = labels.map Formula.unicode := by
    intro labels
    rw [List.map_map]
    exact List.map_congr_left fun f _ => (Formula.blind_render .unicode).mapIds rename f
  rw [describe, describe, mapM_itemAt_map]
  cases d.atoms.mapM (itemAt atoms) with
  | error e => rfl
  | ok names =>
      cases d.columns.mapM (itemAt columns) with
      | error e => rfl
      | ok labels =>
          refine congrArg (fun words => Except.ok (joined [names, words])) ?_
          exact hlabels labels

namespace Table

/-- The table with other identities in its formulas. -/
def mapIds (rename : NodeId → NodeId) (t : Table) : Table :=
  { t with root := t.root.mapIds rename, columns := t.columns.map (Formula.mapIds rename) }

/-- The columns that a column is computed from, by their places. -/
def dependencies (t : Table) (column : Int) : Except OutOfRange Dependencies := do
  return (← itemAt t.columns column).dependencies t.atoms t.columns

/-- A formula with other identities has the table with other identities. -/
theorem filled_mapIds (rename : NodeId → NodeId) (f : Formula) :
    filled (f.mapIds rename) = (filled f).mapIds rename := by
  simp only [filled, mapIds, Formula.atoms_mapIds, Formula.subformulas_mapIds, List.map_map,
    Function.comp_def, (Formula.blind_truth _).mapIds]

variable (rename : NodeId → NodeId) (t : Table)

theorem label_mapIds (column : Int) : (t.mapIds rename).label column = t.label column := by
  show (do return (← itemAt (t.columns.map (Formula.mapIds rename)) column).unicode) = _
  rw [itemAt_map, label]
  cases itemAt t.columns column with
  | error e => rfl
  | ok f => exact congrArg Except.ok ((Formula.blind_render .unicode).mapIds rename f)

theorem lines_mapIds {heading : Formula → String}
    (h : ∀ f : Formula, heading (f.mapIds rename) = heading f) :
    (t.mapIds rename).lines heading = t.lines heading := by
  have hheadings : (t.mapIds rename).headings heading = t.headings heading := by
    show t.atoms ++ (t.columns.map (Formula.mapIds rename)).map heading = _
    rw [List.map_map, headings]
    exact congrArg (t.atoms ++ ·) (List.map_congr_left fun f _ => h f)
  rw [lines, lines, widths, widths, hheadings]
  rfl

/-- Two tables of which the same is shown: in the columns of atoms and of values, in
    the rows, in the labels, and in the lines, with headings in any glyphs and
    with any headings that are the same for structurally equal formulas. -/
structure Alike (t u : Table) : Prop where
  atoms : t.atoms = u.atoms
  rows : t.rows = u.rows
  label : ∀ column, t.label column = u.label column
  values : t.values = u.values
  final : t.final = u.final
  classify : t.classify = u.classify
  lines : ∀ heading : Formula → String, (∀ x y, x.bare = y.bare → heading x = heading y) →
    t.lines heading = u.lines heading
  printed : ∀ g : Glyphs, t.lines (Formula.render g) = u.lines (Formula.render g)

theorem Alike.symm {t u : Table} (h : t.Alike u) : u.Alike t where
  atoms := h.atoms.symm
  rows := h.rows.symm
  label column := (h.label column).symm
  values := h.values.symm
  final := h.final.symm
  classify := h.classify.symm
  lines heading hheading := (h.lines heading hheading).symm
  printed g := (h.printed g).symm

theorem Alike.trans {t u v : Table} (h : t.Alike u) (h' : u.Alike v) : t.Alike v where
  atoms := h.atoms.trans h'.atoms
  rows := h.rows.trans h'.rows
  label column := (h.label column).trans (h'.label column)
  values := h.values.trans h'.values
  final := h.final.trans h'.final
  classify := h.classify.trans h'.classify
  lines heading hheading := (h.lines heading hheading).trans (h'.lines heading hheading)
  printed g := (h.printed g).trans (h'.printed g)

/-- Nothing that is shown of a table shows identities. -/
theorem alike_mapIds : (t.mapIds rename).Alike t where
  atoms := rfl
  rows := rfl
  label := t.label_mapIds rename
  values := rfl
  final := rfl
  classify := rfl
  lines _ hheading :=
    t.lines_mapIds rename fun f => hheading _ f (Formula.blind_bare.mapIds rename f)
  printed g := t.lines_mapIds rename fun f => (Formula.blind_render g).mapIds rename f

/-- The tables of structurally equal formulas show the same: both show what the table
    of the bare tree shows. -/
theorem alike_filled {f g : Formula} (h : f.bare = g.bare) : (filled f).Alike (filled g) := by
  have hbare : ∀ f : Formula, (filled f.bare).Alike (filled f) := by
    intro f
    rw [Formula.bare, filled_mapIds]
    exact alike_mapIds _ _
  have hf := (hbare f).symm
  rw [h] at hf
  exact hf.trans (hbare g)

/-- A renaming that keeps identities apart changes no dependencies. -/
theorem dependencies_filled_mapIds {f : Formula} (h : f.KeepsApart rename) (column : Int) :
    (filled (f.mapIds rename)).dependencies column = (filled f).dependencies column := by
  have hnodes : ∀ c ∈ f.subformulas, c ∈ f.nodes := f.subformulas_sublist_nodes.subset
  rw [filled_mapIds]
  show (do
    return (← itemAt (f.subformulas.map (Formula.mapIds rename)) column).dependencies f.atoms
      (f.subformulas.map (Formula.mapIds rename))) =
    (do return (← itemAt f.subformulas column).dependencies f.atoms f.subformulas)
  rw [itemAt_map]
  cases hitem : itemAt f.subformulas column with
  | error e => rfl
  | ok g =>
      have hg := hnodes g (mem_of_itemAt hitem)
      refine congrArg Except.ok (Formula.dependencies_mapIds fun o ho c hc => ?_)
      exact h o (Formula.mem_nodes_of_mem_operands hg ho) c (hnodes c hc)

/-- What is said of a column is said of its dependencies. -/
theorem describe_eq (column : Int) : t.describe column =
    (t.dependencies column).bind fun d => d.describe t.atoms t.columns := by
  rw [describe, dependencies]
  cases itemAt t.columns column <;> rfl

/-- Nor does it change what is said of them. -/
theorem describe_filled_mapIds {f : Formula} (h : f.KeepsApart rename) (column : Int) :
    (filled (f.mapIds rename)).describe column = (filled f).describe column := by
  rw [describe_eq, describe_eq, dependencies_filled_mapIds rename h, filled_mapIds]
  exact congrArg _ (funext fun d => d.describe_mapIds ..)

end Table

namespace Formula

/-- **Identities do not show.**  Take two structurally equal formulas, whatever
    identities their nodes have, share or lack.  They are printed alike with any
    glyphs; under any assignment they have the same value, or lack the same atom;
    they have the same atoms; and both have a table, of which the same is shown.

    Identities do matter where operands are found.  But if those of one formula are
    the renamed ones of the other, and the renaming keeps different identities of
    its nodes apart, then every column has the same dependencies as well, and the
    same is said of them. -/
theorem observed_alike {a b : Formula}
    (h : (Draft.ofFormula a).sameShape (.ofFormula b) = true) :
    (∀ g : Glyphs, a.render g = b.render g) ∧
      (∀ v : Assignment, a.eval v = b.eval v) ∧
      a.atoms = b.atoms ∧
      ∃ t u, Table.ofFormula a = .ok t ∧ Table.ofFormula b = .ok u ∧ t.Alike u ∧
        ∀ rename, b = a.mapIds rename → a.KeepsApart rename →
          ∀ column, t.dependencies column = u.dependencies column ∧
            t.describe column = u.describe column := by
  have hbare := sameShape_iff_bare.mp h
  refine ⟨fun g => (blind_render g).eq_of_bare hbare, fun v => (blind_eval v).eq_of_bare hbare,
    congrArg Ascending.ofList (blind_leafNames.eq_of_bare hbare), Table.filled a, Table.filled b,
    Table.ofFormula_eq_filled a, Table.ofFormula_eq_filled b, Table.alike_filled hbare, ?_⟩
  rintro rename rfl hapart column
  exact ⟨(Table.dependencies_filled_mapIds rename hapart column).symm,
    (Table.describe_filled_mapIds rename hapart column).symm⟩

/-- Two columns share an identity and two nodes have none.  With every identity greater
    by one, the last column still names the second of the two only. -/
theorem observed_alike_shared_identity :
    let a : Formula := .bin .and (.neg (.atom "P" (some 1)) (some 4))
      (.neg (.atom "P" none) (some 4)) none
    let greater : NodeId → NodeId := Option.map (· + 1)
    (Draft.ofFormula a).sameShape (.ofFormula (a.mapIds greater)) = true ∧
      a.KeepsApart greater ∧ a ≠ a.mapIds greater ∧
      ∃ t u, Table.ofFormula a = .ok t ∧ Table.ofFormula (a.mapIds greater) = .ok u ∧
        t.Alike u ∧ t.dependencies 2 = .ok ⟨[], [1]⟩ ∧ u.dependencies 2 = .ok ⟨[], [1]⟩ := by
  intro a greater
  have hsame : (Draft.ofFormula a).sameShape (.ofFormula (a.mapIds greater)) = true := by decide
  have hapart : a.KeepsApart greater := by
    unfold KeepsApart
    decide
  obtain ⟨-, -, -, t, u, ht, hu, halike, hdependencies⟩ := observed_alike hsame
  have hlast : t.dependencies 2 = .ok ⟨[], [1]⟩ := by
    cases ht
    rfl
  refine ⟨hsame, hapart, by decide, t, u, ht, hu, halike, hlast, ?_⟩
  rw [← (hdependencies greater rfl hapart 2).1, hlast]

/-- Without identities the operands of a formula are all found in its last column: bare
    trees do not keep apart what was apart. -/
example :
    let f : Formula := .bin .and (.neg (.atom "P" none) (some 0)) (.neg (.atom "P" none) (some 1))
      (some 2)
    f.dependencies f.atoms f.subformulas = ⟨[], [0, 1]⟩ ∧
      f.bare.dependencies f.bare.atoms f.bare.subformulas = ⟨[], [2]⟩ := by
  decide

end Formula

end TruthTables
