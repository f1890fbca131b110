import TruthTables.Dependency
import TruthTables.Proofs.Ascending

/-!
# Lookup — an operand is found where its name or identity stands last

    A column names the columns that it is computed from by their places.  An
    atom is looked up by its name, any other operand by its identity, and of
    several places the last one is named (`lastIndex?_eq_some_iff`).  Nothing is
    assumed of the lists that are searched: names and identities may repeat, be
    missing, or belong to other formulas.

    The places come out in strict order and within range, so they can be put in
    words (`Dependencies.describe_of_within`).  There are words unless nothing was found
    (`Dependencies.joined_eq_empty_iff`), as long as no name is empty.

    **Main result** (`dependencies_stand_last`): what a formula's dependencies are
    over any two lists, and what is said of them.
-/

namespace TruthTables

-- ── Positions ─────────────────────────────────────────────────────────────

/-- A position points at a row when it is the row, counted from either end. -/
theorem position?_eq_some_iff {n k : Nat} {row : Int} :
    position? n row = some k ↔ k < n ∧ (row = k ∨ row = (k : Int) - n) := by
  rw [position?]
  split <;> split <;> simp only [Option.some.injEq, reduceCtorEq, false_iff] <;> omega

theorem position?_eq_none_iff {n : Nat} {row : Int} :
    position? n row = none ↔ row < -n ∨ n ≤ row := by
  rw [position?]
  split <;> split <;> simp only [reduceCtorEq, true_iff, false_iff] <;> omega

section

variable {α : Type} {xs ys : List α} {x : α}

/-- Counted from the front, a position points at the item that stands there. -/
theorem itemAt_of_getElem? {k : Nat} (h : xs[k]? = some x) : itemAt xs k = .ok x := by
  have hlt := (List.getElem?_eq_some_iff.mp h).1
  have hk : position? xs.length k = some k := position?_eq_some_iff.mpr ⟨hlt, .inl rfl⟩
  rw [itemAt, hk, Option.bind_some, h]

/-- Replacing at a position replaces one item. -/
theorem replaceAt_eq_ok {i : Int} (h : replaceAt xs i x = .ok ys) :
    ∃ k, k < xs.length ∧ ys = xs.set k x := by
  simp only [replaceAt] at h
  split at h
  · rename_i k hk
    cases h
    exact ⟨k, (position?_eq_some_iff.mp hk).1, rfl⟩
  · cases h

end

-- ── Looking up ────────────────────────────────────────────────────────────

/-- The item stands at place `k` of the list, and nowhere behind it. -/
def StandsLast {α : Type} (x : α) (ys : List α) (k : Nat) : Prop :=
  ys[k]? = some x ∧ ∀ j, ys[j]? = some x → j ≤ k

theorem StandsLast.lt {α : Type} {x : α} {ys : List α} {k : Nat} (h : StandsLast x ys k) :
    k < ys.length :=
  (List.getElem?_eq_some_iff.mp h.1).1

section

variable {α : Type} [DecidableEq α] {x : α}

/-- Where an item is found, it stands. -/
theorem getElem?_lastIndex? {ys : List α} :
    ∀ {k : Nat}, lastIndex? x ys = some k → ys[k]? = some x := by
  induction ys with
  | nil =>
      intro k h
      cases h
  | cons y ys ih =>
      intro k h
      rw [lastIndex?] at h
      split at h
      · rename_i m hm
        cases h
        exact ih hm
      · split at h
        · rename_i hxy
          cases h
          rw [hxy]
          rfl
        · cases h

/-- An item that stands somewhere is found, there or further behind. -/
theorem exists_lastIndex? {ys : List α} :
    ∀ {k : Nat}, ys[k]? = some x → ∃ m, lastIndex? x ys = some m ∧ k ≤ m := by
  induction ys with
  | nil =>
      intro k h
      cases h
  | cons y ys ih =>
      intro k h
      rw [lastIndex?]
      cases k with
      | zero =>
          have hyx : y = x := Option.some.inj h
          cases lastIndex? x ys with
          | some m => exact ⟨m + 1, rfl, Nat.zero_le _⟩
          | none => exact ⟨0, if_pos hyx.symm, Nat.le_refl _⟩
      | succ k =>
          obtain ⟨m, hm, hle⟩ := ih h
          exact ⟨m + 1, by rw [hm], Nat.succ_le_succ hle⟩

/-- An item is found where it stands last. -/
theorem lastIndex?_eq_some_iff {ys : List α} {k : Nat} :
    lastIndex? x ys = some k ↔ StandsLast x ys k := by
  constructor
  · intro h
    refine ⟨getElem?_lastIndex? h, fun j hj => ?_⟩
    obtain ⟨m, hm, hle⟩ := exists_lastIndex? hj
    rw [h] at hm
    cases hm
    exact hle
  · rintro ⟨hk, hlast⟩
    obtain ⟨m, hm, hle⟩ := exists_lastIndex? hk
    have hback := hlast m (getElem?_lastIndex? hm)
    rw [hm, Nat.le_antisymm hback hle]

/-- What is in the list stands last somewhere, and nothing else does. -/
theorem exists_standsLast_iff {ys : List α} : (∃ k, StandsLast x ys k) ↔ x ∈ ys := by
  constructor
  · rintro ⟨k, hk, -⟩
    exact List.mem_of_getElem? hk
  · intro h
    obtain ⟨k, hk⟩ := List.mem_iff_getElem?.mp h
    obtain ⟨m, hm, -⟩ := exists_lastIndex? hk
    exact ⟨m, lastIndex?_eq_some_iff.mp hm⟩

/-- In a list without repeats an item is found where it stands. -/
theorem lastIndex?_eq_some_of_nodup {ys : List α} {k : Nat} (hys : ys.Nodup)
    (h : ys[k]? = some x) : lastIndex? x ys = some k := by
  obtain ⟨m, hm, -⟩ := exists_lastIndex? h
  have hlt := (List.getElem?_eq_some_iff.mp h).1
  have heq : k = m := (List.getElem?_inj hlt hys).mp (h.trans (getElem?_lastIndex? hm).symm)
  rw [hm, heq]

end

namespace Formula

/-- The places named are those at which some operand is found. -/
theorem mem_places {os : List Formula} {find : Formula → Option Nat} {i : Int} :
    i ∈ (Ascending.ofList (os.filterMap find)).map Int.ofNat ↔
      ∃ o k, o ∈ os ∧ find o = some k ∧ i = (k : Int) := by
  simp only [List.mem_map, Ascending.mem_ofList, List.mem_filterMap]
  constructor
  · rintro ⟨k, ⟨o, ho, hk⟩, rfl⟩
    exact ⟨o, k, ho, hk, rfl⟩
  · rintro ⟨o, k, ho, hk, rfl⟩
    exact ⟨k, ⟨o, ho, hk⟩, rfl⟩

theorem mem_dependencies_columns {atoms : List String} {columns : List Formula} {g : Formula}
    {i : Int} : i ∈ (g.dependencies atoms columns).columns ↔
      ∃ o k, o ∈ g.operands ∧ o.subformulaColumn? columns = some k ∧ i = (k : Int) :=
  mem_places

theorem mem_dependencies_atoms {atoms : List String} {columns : List Formula} {g : Formula}
    {i : Int} : i ∈ (g.dependencies atoms columns).atoms ↔
      ∃ o k, o ∈ g.operands ∧ o.atomColumn? atoms = some k ∧ i = (k : Int) :=
  mem_places

/-- Among columns with distinct identities an operand is found in its place. -/
theorem subformulaColumn?_eq {columns : List Formula} {o : Formula} {k : Nat}
    (hids : (columns.map id).Nodup) (hk : columns[k]? = some o) (hna : o.isAtomic = false) :
    o.subformulaColumn? columns = some k := by
  have hid : (columns.map id)[k]? = some o.id := by rw [List.getElem?_map, hk]; rfl
  have hfound := lastIndex?_eq_some_of_nodup hids hid
  cases o with
  | atom name i => cases hna
  | neg f i => exact hfound
  | bin op l r i => exact hfound

-- ── What is found ─────────────────────────────────────────────────────────

variable {g : Formula} {atoms : List String} {columns : List Formula} {i : Int}

theorem atomColumn?_eq_some_iff {o : Formula} {k : Nat} :
    o.atomColumn? atoms = some k ↔ ∃ name id, o = .atom name id ∧ StandsLast name atoms k := by
  cases o with
  | atom name i =>
      refine lastIndex?_eq_some_iff.trans ⟨fun h => ⟨name, i, rfl, h⟩, ?_⟩
      rintro ⟨_, _, heq, h⟩
      cases heq
      exact h
  | neg f i => exact iff_of_false nofun nofun
  | bin op l r i => exact iff_of_false nofun nofun

theorem subformulaColumn?_eq_some_iff {o : Formula} {k : Nat} :
    o.subformulaColumn? columns = some k ↔
      o.isAtomic = false ∧ StandsLast o.id (columns.map id) k := by
  cases o with
  | atom name i => exact iff_of_false nofun nofun
  | neg f i => exact lastIndex?_eq_some_iff.trans (and_iff_right rfl).symm
  | bin op l r i => exact lastIndex?_eq_some_iff.trans (and_iff_right rfl).symm

/-- The atoms named are those of the operands that are atoms, where they stand last. -/
theorem mem_dependencies_atoms_iff_standsLast : i ∈ (g.dependencies atoms columns).atoms ↔
    ∃ k : Nat, i = k ∧ ∃ name id, .atom name id ∈ g.operands ∧ StandsLast name atoms k := by
  rw [mem_dependencies_atoms]
  constructor
  · rintro ⟨o, k, ho, hk, rfl⟩
    obtain ⟨name, id, rfl, hlast⟩ := atomColumn?_eq_some_iff.mp hk
    exact ⟨k, rfl, name, id, ho, hlast⟩
  · rintro ⟨k, rfl, name, id, ho, hlast⟩
    exact ⟨_, k, ho, atomColumn?_eq_some_iff.mpr ⟨name, id, rfl, hlast⟩, rfl⟩

/-- The columns named are those of the identities of the other operands, where they stand
    last. -/
theorem mem_dependencies_columns_iff_standsLast : i ∈ (g.dependencies atoms columns).columns ↔
    ∃ k : Nat, i = k ∧ ∃ o ∈ g.operands, o.isAtomic = false ∧
      StandsLast o.id (columns.map id) k := by
  rw [mem_dependencies_columns]
  constructor
  · rintro ⟨o, k, ho, hk, rfl⟩
    exact ⟨k, rfl, o, ho, subformulaColumn?_eq_some_iff.mp hk⟩
  · rintro ⟨k, rfl, o, ho, hlast⟩
    exact ⟨o, k, ho, subformulaColumn?_eq_some_iff.mpr hlast, rfl⟩

theorem pairwise_places (os : List Formula) (find : Formula → Option Nat) :
    ((Ascending.ofList (os.filterMap find)).map Int.ofNat).Pairwise (· < ·) := by
  refine List.pairwise_map.mpr ((Ascending.pairwise_ofList _).imp ?_)
  intro j k hjk
  exact Int.ofNat_lt.mpr hjk

theorem atoms_dependencies_eq_nil_iff : (g.dependencies atoms columns).atoms = [] ↔
    ∀ name id, .atom name id ∈ g.operands → name ∉ atoms := by
  rw [List.eq_nil_iff_forall_not_mem]
  constructor
  · intro h name id ho hname
    obtain ⟨k, hk⟩ := exists_standsLast_iff.mpr hname
    exact h k (mem_dependencies_atoms_iff_standsLast.mpr ⟨k, rfl, name, id, ho, hk⟩)
  · intro h i hi
    obtain ⟨k, -, name, id, ho, hk⟩ := mem_dependencies_atoms_iff_standsLast.mp hi
    exact h name id ho (exists_standsLast_iff.mp ⟨k, hk⟩)

theorem columns_dependencies_eq_nil_iff : (g.dependencies atoms columns).columns = [] ↔
    ∀ o ∈ g.operands, o.isAtomic = false → o.id ∉ columns.map id := by
  rw [List.eq_nil_iff_forall_not_mem]
  constructor
  · intro h o ho hna hid
    obtain ⟨k, hk⟩ := exists_standsLast_iff.mpr hid
    exact h k (mem_dependencies_columns_iff_standsLast.mpr ⟨k, rfl, o, ho, hna, hk⟩)
  · intro h i hi
    obtain ⟨k, -, o, ho, hna, hk⟩ := mem_dependencies_columns_iff_standsLast.mp hi
    exact h o ho hna (exists_standsLast_iff.mp ⟨k, hk⟩)

end Formula

-- ── In words ──────────────────────────────────────────────────────────────

/-- When a function fails nowhere on a list, its values on the list are found. -/
theorem exists_mapM_eq_ok {α β ε : Type} {f : α → Except ε β} {xs : List α}
    (h : ∀ x ∈ xs, ∃ y, f x = .ok y) :
    ∃ ys, xs.mapM f = .ok ys ∧ ys.length = xs.length ∧ ∀ y ∈ ys, ∃ x ∈ xs, f x = .ok y := by
  induction xs with
  | nil => exact ⟨[], rfl, rfl, nofun⟩
  | cons x xs ih =>
      obtain ⟨y, hy⟩ := h x (List.mem_cons_self ..)
      obtain ⟨ys, hys, hlength, hfrom⟩ := ih fun z hz => h z (List.mem_cons_of_mem _ hz)
      refine ⟨y :: ys, ?_, congrArg (· + 1) hlength, ?_⟩
      · rw [List.mapM_cons, hy, hys]
        rfl
      · intro z hz
        rcases List.mem_cons.mp hz with rfl | hz
        · exact ⟨x, List.mem_cons_self .., hy⟩
        · obtain ⟨w, hw, hwz⟩ := hfrom z hz
          exact ⟨w, List.mem_cons_of_mem _ hw, hwz⟩

/-- Places within range can all be read off, and what is read stands there. -/
theorem exists_items {α : Type} {xs : List α} {is : List Int}
    (h : ∀ i ∈ is, 0 ≤ i ∧ i < xs.length) :
    ∃ ys, is.mapM (itemAt xs) = .ok ys ∧ ys.length = is.length ∧
      ∀ y ∈ ys, ∃ k : Nat, (k : Int) ∈ is ∧ xs[k]? = some y := by
  have hitem : ∀ i ∈ is, ∃ y, itemAt xs i = .ok y ∧ ∃ k : Nat, i = k ∧ xs[k]? = some y := by
    intro i hi
    obtain ⟨hlow, hhigh⟩ := h i hi
    obtain ⟨k, rfl⟩ := Int.eq_ofNat_of_zero_le hlow
    have hget : xs[k]? = some xs[k] := List.getElem?_eq_getElem (by omega)
    exact ⟨_, itemAt_of_getElem? hget, k, rfl, hget⟩
  obtain ⟨ys, hys, hlength, hfrom⟩ :=
    exists_mapM_eq_ok fun i hi => (hitem i hi).imp fun _ => And.left
  refine ⟨ys, hys, hlength, fun y hy => ?_⟩
  obtain ⟨i, hi, hiy⟩ := hfrom y hy
  obtain ⟨z, hiz, k, rfl, hk⟩ := hitem i hi
  rw [hiy] at hiz
  cases hiz
  exact ⟨k, hi, hk⟩

theorem intercalate_ne_empty {sep x : String} {xs : List String} (hx : x ∈ xs) (hne : x ≠ "") :
    sep.intercalate xs ≠ "" := by
  induction xs with
  | nil => cases hx
  | cons y ys ih =>
      cases ys with
      | nil =>
          obtain rfl := List.mem_singleton.mp hx
          rw [String.intercalate_singleton]
          exact hne
      | cons z zs =>
          rw [String.intercalate_cons_cons, Ne, String.append_eq_empty_iff,
            String.append_eq_empty_iff]
          rintro ⟨⟨rfl, -⟩, hrest⟩
          exact ih ((List.mem_cons.mp hx).resolve_left hne) hrest

theorem Formula.unicode_ne_empty {f : Formula} (h : f.isAtomic = false) : f.unicode ≠ "" := by
  have hmark : ∀ {mark rest : String}, mark ≠ "" → mark ++ rest ≠ "" := by
    intro mark rest hne hempty
    exact hne (String.append_eq_empty_iff.mp hempty).1
  cases f with
  | atom name i => cases h
  | neg f i => exact hmark (by decide)
  | bin op l r i =>
      show "(" ++ _ ++ " " ++ _ ++ " " ++ _ ++ ")" ≠ ""
      simp only [String.append_assoc]
      exact hmark (by decide)

namespace Dependencies

/-- Groups of words as one text, the empty groups left out. -/
def joined (groups : List (List String)) : String :=
  " and ".intercalate ((groups.filter fun group => !group.isEmpty).map Text.commaSeparated)

/-- There is a text unless there are no words, as long as no word is empty. -/
theorem joined_eq_empty_iff {groups : List (List String)}
    (h : ∀ group ∈ groups, ∀ word ∈ group, word ≠ "") :
    joined groups = "" ↔ ∀ group ∈ groups, group = [] := by
  constructor
  · intro hempty group hgroup
    cases group with
    | nil => rfl
    | cons word words =>
        have hkept : (word :: words) ∈ groups.filter fun group => !group.isEmpty :=
          List.mem_filter.mpr ⟨hgroup, rfl⟩
        have hword := h _ hgroup word (List.mem_cons_self ..)
        have htext : Text.commaSeparated (word :: words) ≠ "" :=
          intercalate_ne_empty (List.mem_cons_self ..) hword
        exact absurd hempty (intercalate_ne_empty (List.mem_map_of_mem hkept) htext)
  · intro hall
    rw [joined, List.filter_eq_nil_iff.mpr]
    · rfl
    · intro group hgroup
      rw [hall group hgroup]
      exact Bool.false_ne_true

variable {d : Dependencies} {atoms : List String} {columns : List Formula}

theorem describe_eq {names : List String} {labels : List Formula}
    (hnames : d.atoms.mapM (itemAt atoms) = .ok names)
    (hlabels : d.columns.mapM (itemAt columns) = .ok labels) :
    d.describe atoms columns = .ok (joined [names, labels.map Formula.unicode]) := by
  rw [describe, hnames]
  show (d.columns.mapM (itemAt columns) >>= fun labels =>
    pure (joined [names, labels.map Formula.unicode])) = _
  rw [hlabels]
  rfl

/-- Places within range can be put in words.  There are words unless there are no places,
    as long as no name is empty and no column is that of an atom. -/
theorem describe_of_within (hatoms : ∀ i ∈ d.atoms, 0 ≤ i ∧ i < atoms.length)
    (hcolumns : ∀ i ∈ d.columns, 0 ≤ i ∧ i < columns.length) :
    ∃ text, d.describe atoms columns = .ok text ∧
      ((∀ (k : Nat) (name : String), (k : Int) ∈ d.atoms → atoms[k]? = some name → name ≠ "") →
        (∀ c ∈ columns, c.isAtomic = false) → (text = "" ↔ d.atoms = [] ∧ d.columns = [])) := by
  obtain ⟨names, hnames, hnamesLength, hnamesFrom⟩ := exists_items hatoms
  obtain ⟨labels, hlabels, hlabelsLength, hlabelsFrom⟩ := exists_items hcolumns
  refine ⟨_, describe_eq hnames hlabels, fun hnonempty hcompound => ?_⟩
  rw [joined_eq_empty_iff]
  · rw [List.forall_mem_cons, List.forall_mem_singleton, List.map_eq_nil_iff,
      ← List.length_eq_zero_iff, ← List.length_eq_zero_iff, hnamesLength, hlabelsLength,
      List.length_eq_zero_iff, List.length_eq_zero_iff]
  · rw [List.forall_mem_cons, List.forall_mem_singleton]
    refine ⟨fun name hname => ?_, fun word hword => ?_⟩
    · obtain ⟨k, hk, hget⟩ := hnamesFrom name hname
      exact hnonempty k name hk hget
    · obtain ⟨label, hlabel, rfl⟩ := List.mem_map.mp hword
      obtain ⟨k, -, hget⟩ := hlabelsFrom label hlabel
      exact Formula.unicode_ne_empty (hcompound label (List.mem_of_getElem? hget))

end Dependencies

namespace Formula

/-- **An operand is found where it stands last.**  Take any formula and any lists of atoms
    and of columns, in which names and identities may repeat.

    The atoms named are the places where the name of some operand that is an atom
    stands last among the atoms.  The columns named are the places where the
    identity of some other operand stands last among those of the columns.  Both
    come in strict order and within range, so that putting them in words over the
    same lists never fails.  If no column is that of an atom and no name found is
    empty, there are no words exactly when no operand is in either list. -/
theorem dependencies_stand_last (g : Formula) (atoms : List String) (columns : List Formula) :
    let d := g.dependencies atoms columns
    (∀ i : Int, i ∈ d.atoms ↔
      ∃ k : Nat, i = k ∧ ∃ name id, .atom name id ∈ g.operands ∧ StandsLast name atoms k) ∧
    (∀ i : Int, i ∈ d.columns ↔
      ∃ k : Nat, i = k ∧ ∃ o ∈ g.operands, o.isAtomic = false ∧
        StandsLast o.id (columns.map id) k) ∧
    d.atoms.Pairwise (· < ·) ∧ d.columns.Pairwise (· < ·) ∧
    (∀ i ∈ d.atoms, 0 ≤ i ∧ i < atoms.length) ∧
    (∀ i ∈ d.columns, 0 ≤ i ∧ i < columns.length) ∧
    ∃ text, d.describe atoms columns = .ok text ∧
      ((∀ name id, .atom name id ∈ g.operands → name ∈ atoms → name ≠ "") →
        (∀ c ∈ columns, c.isAtomic = false) →
          (text = "" ↔ (∀ name id, .atom name id ∈ g.operands → name ∉ atoms) ∧
            ∀ o ∈ g.operands, o.isAtomic = false → o.id ∉ columns.map id)) := by
  have hatoms : ∀ i ∈ (g.dependencies atoms columns).atoms, 0 ≤ i ∧ i < atoms.length := by
    intro i hi
    obtain ⟨k, rfl, _, _, _, hlast⟩ := mem_dependencies_atoms_iff_standsLast.mp hi
    have hlt := hlast.lt
    omega
  have hcolumns : ∀ i ∈ (g.dependencies atoms columns).columns,
      0 ≤ i ∧ i < columns.length := by
    intro i hi
    obtain ⟨k, rfl, _, _, _, hlast⟩ := mem_dependencies_columns_iff_standsLast.mp hi
    have hlt := hlast.lt
    rw [List.length_map] at hlt
    omega
  obtain ⟨text, htext, hempty⟩ := Dependencies.describe_of_within hatoms hcolumns
  refine ⟨fun _ => mem_dependencies_atoms_iff_standsLast,
    fun _ => mem_dependencies_columns_iff_standsLast, pairwise_places .., pairwise_places ..,
    hatoms, hcolumns, text, htext, fun hnames hcompound => ?_⟩
  rw [hempty ?_ hcompound, atoms_dependencies_eq_nil_iff, columns_dependencies_eq_nil_iff]
  intro k name hk hget
  obtain ⟨j, hj, name', id, ho, hlast⟩ := mem_dependencies_atoms_iff_standsLast.mp hk
  cases Int.ofNat.inj hj
  rw [hlast.1] at hget
  cases hget
  exact hnames name id ho (List.mem_of_getElem? hlast.1)

/-- Of a repeated name and of a repeated identity the last place is named, and there are
    words for them. -/
theorem dependencies_stand_last_repeated :
    let g : Formula := .bin .and (.atom "P" none) (.neg (.atom "Q" none) (some 1)) none
    let columns : List Formula := [.neg (.atom "Q" none) (some 1), .neg (.atom "R" none) (some 1)]
    (∀ name id, .atom name id ∈ g.operands → name ∈ ["P", "Q", "P"] → name ≠ "") ∧
      (∀ c ∈ columns, c.isAtomic = false) ∧
      g.dependencies ["P", "Q", "P"] columns = ⟨[2], [1]⟩ ∧
      ∃ text, (g.dependencies ["P", "Q", "P"] columns).describe ["P", "Q", "P"] columns =
        .ok text ∧ text ≠ "" := by
  intro g columns
  have hnames : ∀ name id, .atom name id ∈ g.operands → name ∈ ["P", "Q", "P"] → name ≠ "" := by
    rintro name id - hname rfl
    exact absurd hname (by decide)
  have hcompound : ∀ c ∈ columns, c.isAtomic = false := by decide
  obtain ⟨-, -, -, -, -, -, text, htext, hempty⟩ :=
    dependencies_stand_last g ["P", "Q", "P"] columns
  refine ⟨hnames, hcompound, by decide, text, htext, fun h => ?_⟩
  have hnowhere := ((hempty hnames hcompound).mp h).1 "P" none (List.mem_cons_self ..)
  exact hnowhere (List.mem_cons_self ..)

end Formula

end TruthTables
