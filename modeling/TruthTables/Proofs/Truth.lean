import TruthTables.Table
import TruthTables.Proofs.Ascending

/-!
# Truth — every cell of a table is filled, with the classical value

    What a formula states is a proposition, put together with the connectives of
    logic from what the names state (`Formula.Holds`).  Its truth value under a
    valuation is computed by recursion on the tree, and is true exactly when the
    formula holds (`truth_iff_holds`).

    Evaluation under an assignment agrees with the truth value as soon as the
    assignment covers the names at the leaves (`eval_eq_truth`).  Each row of a
    table covers the names of the root, so every formula has a table,
    `ofFormula_eq_filled`: it has one column for each subformula and holds the
    classical values.
-/

namespace TruthTables

-- ── Classical truth ───────────────────────────────────────────────────────

/-- The proposition that the connective makes of two others. -/
def BinOp.Says : BinOp → Prop → Prop → Prop
  | .and, p, q => p ∧ q
  | .or, p, q => p ∨ q
  | .imp, p, q => p → q
  | .bicond, p, q => p ↔ q

/-- The truth functions of the connectives are those of the propositions. -/
theorem BinOp.apply_iff (op : BinOp) (a b : Bool) :
    op.apply a b = true ↔ op.Says (a = true) (b = true) := by
  cases op with
  | and => exact Bool.and_eq_true_iff
  | or => exact Bool.or_eq_true_iff
  | imp => cases a <;> simp [apply, Says]
  | bicond => cases a <;> simp [apply, Says]

namespace Formula

/-- What the formula states when each name states what `p` says of it. -/
def Holds (p : String → Prop) : Formula → Prop
  | .atom name _ => p name
  | .neg f _ => ¬ f.Holds p
  | .bin op l r _ => op.Says (l.Holds p) (r.Holds p)

/-- The classical truth value when each name has the value `v` gives it. -/
def truth (v : String → Bool) : Formula → Bool
  | .atom name _ => v name
  | .neg f _ => !f.truth v
  | .bin op l r _ => op.apply (l.truth v) (r.truth v)

/-- The truth value is true when the formula holds, and only then. -/
theorem truth_iff_holds (v : String → Bool) (f : Formula) :
    f.truth v = true ↔ f.Holds fun name => v name = true := by
  induction f with
  | atom name i => rfl
  | neg f i ih =>
      rw [truth, Holds, ← ih, Bool.not_eq_true']
      exact Bool.eq_false_iff
  | bin op l r i ihl ihr => rw [truth, Holds, BinOp.apply_iff, ihl, ihr]

/-- The names at the leaves of a subformula are at leaves of the whole. -/
theorem leafNames_subset {f g : Formula} (h : g ∈ f.subformulas) :
    ∀ name ∈ g.leafNames, name ∈ f.leafNames := by
  induction f with
  | atom name i => cases h
  | neg f i ih =>
      rcases List.mem_append.mp h with h | h
      · exact ih h
      · obtain rfl := List.mem_singleton.mp h
        exact fun _ hn => hn
  | bin op l r i ihl ihr =>
      intro name hn
      rcases List.mem_append.mp h with h | h
      · rcases List.mem_append.mp h with h | h
        · exact List.mem_append.mpr (.inl (ihl h name hn))
        · exact List.mem_append.mpr (.inr (ihr h name hn))
      · obtain rfl := List.mem_singleton.mp h
        exact hn

end Formula

-- ── Evaluation under an assignment ────────────────────────────────────────

/-- The data that count as false: they are nothing, untrue, zero or empty. -/
inductive Datum.Void : Datum → Prop where
  | null : Void .null
  | untrue : Void (.truth false)
  | zero : Void (.int 0)
  | realZero (negative : Bool) (exponent : Int) : Void (.real (.finite negative 0 exponent))
  | text : Void (.text "")
  | list : Void (.list [])
  | record : Void (.record [])

theorem Datum.truthy_eq_true_iff (d : Datum) : d.truthy = true ↔ ¬ d.Void := by
  constructor
  · rintro h (_ | _ | _ | _ | _ | _ | _) <;> cases h
  · intro h
    cases d with
    | null => exact absurd .null h
    | truth b =>
        cases b with
        | true => rfl
        | false => exact absurd .untrue h
    | int n => exact decide_eq_true fun hn => h (hn ▸ .zero)
    | real x =>
        cases x with
        | infinite negative => rfl
        | finite negative significand exponent =>
            cases significand with
            | zero => exact absurd (.realZero negative exponent) h
            | succ m => rfl
    | text s => exact decide_eq_true fun hs => h (hs ▸ .text)
    | list items =>
        cases items with
        | nil => exact absurd .list h
        | cons d ds => rfl
    | record fields =>
        cases fields with
        | nil => exact absurd .record h
        | cons field fields => rfl

namespace Assignment

/-- The valuation that an assignment stands for; other names are false. -/
def valuation (a : Assignment) (name : String) : Bool := (a.truth? name).getD false

/-- What a name states under an assignment: that it is bound to something that does not
    count as false. -/
def Affirms (a : Assignment) (name : String) : Prop :=
  ∃ d, a.lookup name = some d ∧ ¬ d.Void

theorem valuation_eq_true_iff (a : Assignment) (name : String) :
    a.valuation name = true ↔ a.Affirms name := by
  rw [valuation, truth?, Affirms]
  cases a.lookup name with
  | none => exact iff_of_false Bool.false_ne_true nofun
  | some d =>
      rw [Option.map_some, Option.getD_some, Datum.truthy_eq_true_iff]
      simp

/-- The assignment gives a value to every one of the names. -/
def Covers (a : Assignment) (names : List String) : Prop :=
  ∀ name ∈ names, (a.truth? name).isSome

theorem truth?_eq_valuation {a : Assignment} {name : String} (h : (a.truth? name).isSome) :
    a.truth? name = some (a.valuation name) := by
  obtain ⟨b, hb⟩ := Option.isSome_iff_exists.mp h
  rw [valuation, hb]
  rfl

/-- A row of some names is a row of all but the first, with a truth value for that
    one in front. -/
theorem mem_rows_cons {name : String} {names : List String} {a : Assignment} :
    a ∈ rows (name :: names) ↔ ∃ b, ∃ rest ∈ rows names, a = (name, .truth b) :: rest := by
  rw [rows, List.mem_append, List.mem_map, List.mem_map]
  constructor
  · rintro (⟨rest, hrest, rfl⟩ | ⟨rest, hrest, rfl⟩)
    · exact ⟨true, rest, hrest, rfl⟩
    · exact ⟨false, rest, hrest, rfl⟩
  · rintro ⟨b, rest, hrest, rfl⟩
    cases b with
    | true => exact .inl ⟨rest, hrest, rfl⟩
    | false => exact .inr ⟨rest, hrest, rfl⟩

/-- A row binds a truth value to every name that it was made for. -/
theorem exists_lookup_of_mem_rows {names : List String} :
    ∀ {a : Assignment}, a ∈ rows names → ∀ name ∈ names, ∃ b, a.lookup name = some (.truth b) := by
  induction names with
  | nil =>
      intro a _ name hn
      cases hn
  | cons m ms ih =>
      intro a ha name hn
      obtain ⟨b, rest, hrest, rfl⟩ := mem_rows_cons.mp ha
      rw [List.lookup_cons]
      by_cases hm : name = m
      · exact ⟨b, by simp [hm]⟩
      · simp only [beq_eq_false_iff_ne.mpr hm]
        exact ih hrest name ((List.mem_cons.mp hn).resolve_left hm)

theorem lookup_of_mem_rows {names : List String} {a : Assignment} (ha : a ∈ rows names)
    {name : String} (hn : name ∈ names) : a.lookup name = some (.truth (a.valuation name)) := by
  obtain ⟨b, hb⟩ := exists_lookup_of_mem_rows ha name hn
  rw [valuation, truth?, hb]
  rfl

theorem covers_of_mem_rows {names : List String} {a : Assignment} (ha : a ∈ rows names) :
    a.Covers names := by
  intro name hn
  rw [truth?, lookup_of_mem_rows ha hn]
  rfl

end Assignment

/-- Evaluation gives the classical value when every leaf has one. -/
theorem Formula.eval_eq_truth {a : Assignment} {f : Formula} (h : a.Covers f.leafNames) :
    f.eval a = .ok (f.truth a.valuation) := by
  induction f with
  | atom name i =>
      have hn := Assignment.truth?_eq_valuation (h name (List.mem_singleton.mpr rfl))
      simp only [Formula.eval, hn]
      rfl
  | neg f i ih =>
      rw [Formula.eval, ih h]
      rfl
  | bin op l r i ihl ihr =>
      have hl := ihl fun name hn => h name (List.mem_append.mpr (.inl hn))
      have hr := ihr fun name hn => h name (List.mem_append.mpr (.inr hn))
      rw [Formula.eval, hl, hr]
      rfl

/-- The value is true when the formula holds of what the assignment affirms. -/
theorem Formula.truth_valuation_iff (a : Assignment) (f : Formula) :
    f.truth a.valuation = true ↔ f.Holds a.Affirms := by
  have haffirms : (fun name => a.valuation name = true) = a.Affirms :=
    funext fun name => propext (a.valuation_eq_true_iff name)
  rw [Formula.truth_iff_holds, haffirms]

-- ── The table of a formula ────────────────────────────────────────────────

/-- A map over a list that fails nowhere. -/
theorem mapM_eq_ok {α β ε : Type} {f : α → Except ε β} {g : α → β} :
    ∀ {xs : List α}, (∀ x ∈ xs, f x = .ok (g x)) → xs.mapM f = .ok (xs.map g) := by
  intro xs h
  induction xs with
  | nil => rfl
  | cons x xs ih =>
      have htail := ih fun y hy => h y (List.mem_cons_of_mem _ hy)
      rw [List.mapM_cons, h x (List.mem_cons_self ..), htail]
      rfl

namespace Table

/-- The table of a formula with every cell filled by the classical value. -/
def filled (root : Formula) : Table where
  root := root
  atoms := root.atoms
  rows := Assignment.rows root.atoms
  columns := root.subformulas
  values := root.subformulas.map fun f =>
    (Assignment.rows root.atoms).map fun a => f.truth a.valuation
  final := (Assignment.rows root.atoms).map fun a => root.truth a.valuation

/-- Every row of the table of a formula covers the leaves of the formula. -/
theorem covers_of_mem_filled_rows {root : Formula} {a : Assignment}
    (h : a ∈ (filled root).rows) : a.Covers root.leafNames := by
  intro name hn
  refine Assignment.covers_of_mem_rows h name ?_
  exact Ascending.mem_ofList.mpr hn

/-- Every row of the table covers the leaves of each column. -/
theorem covers_column {root col : Formula} {a : Assignment} (h : a ∈ (filled root).rows)
    (hc : col ∈ (filled root).columns) : a.Covers col.leafNames :=
  fun name hn => covers_of_mem_filled_rows h name (Formula.leafNames_subset hc name hn)

/-- The values of a column are those of its formula. -/
theorem getElem?_filled_values {root col : Formula} {c : Nat}
    (hc : (filled root).columns[c]? = some col) :
    (filled root).values[c]? = some ((filled root).rows.map fun a => col.truth a.valuation) := by
  show ((filled root).columns.map _)[c]? = _
  rw [List.getElem?_map, hc]
  rfl

theorem valuesOf_eq_ok {root f : Formula}
    (h : ∀ a ∈ (filled root).rows, a.Covers f.leafNames) :
    valuesOf (filled root).rows f = .ok ((filled root).rows.map fun a => f.truth a.valuation) := by
  refine mapM_eq_ok fun a ha => ?_
  rw [Formula.eval_eq_truth (h a ha)]
  rfl

/-- **Every formula has a table**, filled with the classical values. -/
theorem ofFormula_eq_filled (root : Formula) : ofFormula root = .ok (filled root) := by
  have henum : Assignment.enumerate root.atoms = .ok (filled root).rows :=
    if_pos (Ascending.nodup_ofList root.leafNames)
  have hvalues : root.subformulas.mapM (valuesOf (filled root).rows) = .ok (filled root).values :=
    mapM_eq_ok fun f hf => valuesOf_eq_ok fun a ha => covers_column ha hf
  have hfinal : valuesOf (filled root).rows root = .ok (filled root).final :=
    valuesOf_eq_ok fun a ha => covers_of_mem_filled_rows ha
  rw [ofFormula, henum]
  show (do
    let values ← root.subformulas.mapM (valuesOf (filled root).rows)
    let final ← valuesOf (filled root).rows root
    return Table.mk root root.atoms (filled root).rows root.subformulas values final) = _
  rw [hvalues, hfinal]
  rfl

end Table

end TruthTables
