import Mathlib.Algebra.Group.Nat.Defs
import Mathlib.Logic.ExistsUnique
import TruthTables.Proofs.Classification

/-!
# Rows — every assignment once, counted down in binary

    The rows for some names are made by recursion on the names: first those in
    which the first name is true, then those in which it is false.  Nothing is
    counted there.  But if the names are distinct and the values of a row are
    read as a binary numeral, true for one and the first name most significant,
    then the row at place `j` spells `2 ^ n - 1 - j` (`numeral_of_getElem?_rows`).

    So the rows are in descending order and no two are the same, which leaves
    each of the functions from the names to the truth values one row of its own.
    They are the rows that counting makes: the digits of a mask that runs from
    `2 ^ n - 1` down to zero (`rows_eq_ofMask`).

    **Main result** (`enumerate_countsDown`).  Names that repeat are refused, and
    distinct ones have all their assignments enumerated, from all true down to
    all false.
-/

namespace TruthTables.Assignment

variable {names : List String} {a : Assignment}

-- ── What a row binds ──────────────────────────────────────────────────────

theorem length_rows (names : List String) : (rows names).length = 2 ^ names.length := by
  induction names with
  | nil => rfl
  | cons name names ih =>
      rw [rows, List.length_append, List.length_map, List.length_map, ih, List.length_cons,
        pow_succ]
      omega

theorem keys_of_mem_rows (h : a ∈ rows names) : a.keys = names := by
  induction names generalizing a with
  | nil =>
      rw [List.mem_singleton.mp h]
      rfl
  | cons name names ih =>
      obtain ⟨b, rest, hrest, rfl⟩ := mem_rows_cons.mp h
      exact congrArg (name :: ·) (ih hrest)

theorem exists_truth_of_mem_rows (h : a ∈ rows names) : ∀ p ∈ a, ∃ b, p.2 = .truth b := by
  induction names generalizing a with
  | nil =>
      intro p hp
      rw [List.mem_singleton.mp h] at hp
      cases hp
  | cons name names ih =>
      obtain ⟨b, rest, hrest, rfl⟩ := mem_rows_cons.mp h
      intro p hp
      rcases List.mem_cons.mp hp with rfl | hp
      · exact ⟨b, rfl⟩
      · exact ih hrest p hp

/-- A binding in front is not seen by the names behind it, if they are others. -/
theorem map_valuation_cons {name : String} (h : name ∉ names) (d : Datum) (a : Assignment) :
    (name :: names).map (valuation ((name, d) :: a)) = d.truthy :: names.map a.valuation := by
  have hlater : names.map (valuation ((name, d) :: a)) = names.map a.valuation := by
    refine List.map_congr_left fun m hm => ?_
    rw [valuation_cons, if_neg]
    rintro rfl
    exact h hm
  rw [List.map_cons, hlater, valuation_cons, if_pos rfl]

/-- The values of distinct names stand in a row as they are bound. -/
theorem map_truthy_of_mem_rows (hnames : names.Nodup) (h : a ∈ rows names) :
    a.map (fun p => p.2.truthy) = names.map a.valuation := by
  induction names generalizing a with
  | nil =>
      rw [List.mem_singleton.mp h]
      rfl
  | cons name names ih =>
      obtain ⟨b, rest, hrest, rfl⟩ := mem_rows_cons.mp h
      obtain ⟨hnot, hnodup⟩ := List.nodup_cons.mp hnames
      rw [map_valuation_cons hnot, List.map_cons, ih hnodup hrest]

/-- The first row makes every name true. -/
theorem head?_rows (names : List String) :
    (rows names).head? = some (names.map fun name => (name, .truth true)) := by
  induction names with
  | nil => rfl
  | cons name names ih => rw [rows, List.head?_append, List.head?_map, ih]; rfl

/-- The last row makes every name false. -/
theorem getLast?_rows (names : List String) :
    (rows names).getLast? = some (names.map fun name => (name, .truth false)) := by
  induction names with
  | nil => rfl
  | cons name names ih => rw [rows, List.getLast?_append, List.getLast?_map, ih]; rfl

-- ── A row in letters ──────────────────────────────────────────────────────

theorem row_of_covers (h : a.Covers names) :
    a.row names = .ok (String.join (names.map fun name => letter (a.valuation name))) := by
  induction names with
  | nil => rfl
  | cons name names ih =>
      have hhead := truth?_eq_valuation (h name (List.mem_cons_self ..))
      have htail := ih fun m hm => h m (List.mem_cons_of_mem _ hm)
      rw [row, hhead]
      dsimp only
      rw [htail, List.map_cons, String.join_cons]
      rfl

theorem toList_join_letters (bs : List Bool) :
    (String.join (bs.map letter)).toList = bs.map fun b => if b then 'T' else 'F' := by
  induction bs with
  | nil => rfl
  | cons b bs ih =>
      rw [List.map_cons, String.join_cons, String.toList_append, ih]
      cases b <;> rfl

/-- The letters of a row stand one by one. -/
theorem map_singleton_join_letters (bs : List Bool) :
    (String.join (bs.map letter)).toList.map String.singleton = bs.map letter := by
  rw [toList_join_letters, List.map_map]
  refine List.map_congr_left fun b _ => ?_
  cases b <;> rfl

/-- A row of distinct names spells the values that are bound in it. -/
theorem row_of_mem_rows (hnames : names.Nodup) (h : a ∈ rows names) :
    a.row names = .ok (String.join ((a.map fun p => p.2.truthy).map letter)) := by
  rw [row_of_covers (covers_of_mem_rows h), map_truthy_of_mem_rows hnames h, List.map_map]
  rfl

-- ── Rows as numerals ──────────────────────────────────────────────────────

/-- The number that truth values spell in binary, true for one, the first of them
    the most significant. -/
def numeral : List Bool → Nat
  | [] => 0
  | b :: bs => (if b then 2 ^ bs.length else 0) + numeral bs

example : numeral [true, false, true] = 5 := rfl

/-- The number that letters spell, T for one. -/
def reading (letters : String) : Nat := numeral (letters.toList.map (· = 'T'))

theorem reading_join_letters (bs : List Bool) :
    reading (String.join (bs.map letter)) = numeral bs := by
  rw [reading, toList_join_letters, List.map_map]
  refine congrArg numeral ((List.map_congr_left fun b _ => ?_).trans (List.map_id bs))
  cases b <;> rfl

/-- The rows of distinct names count down from the greatest numeral to zero. -/
theorem numeral_of_getElem?_rows (hnames : names.Nodup) :
    ∀ {a : Assignment} {j : Nat}, (rows names)[j]? = some a →
      numeral (names.map a.valuation) + j + 1 = 2 ^ names.length := by
  induction names with
  | nil =>
      intro a j h
      have hj : j = 0 := Nat.lt_one_iff.mp (List.getElem?_eq_some_iff.mp h).1
      rw [hj]
      rfl
  | cons name names ih =>
      intro a j h
      obtain ⟨hnot, hnodup⟩ := List.nodup_cons.mp hnames
      rw [List.length_cons, pow_succ]
      rw [rows] at h
      by_cases hj : j < 2 ^ names.length
      · -- the first name is true here: one more power of two, and the same place behind it
        rw [List.getElem?_append_left (by rwa [List.length_map, length_rows]),
          List.getElem?_map] at h
        obtain ⟨rest, hrest, rfl⟩ := Option.map_eq_some_iff.mp h
        have hnum := ih hnodup hrest
        rw [map_valuation_cons hnot, numeral, Datum.truthy, if_pos rfl, List.length_map]
        omega
      · rw [List.getElem?_append_right (by rw [List.length_map, length_rows]; omega),
          List.length_map, length_rows, List.getElem?_map] at h
        obtain ⟨rest, hrest, rfl⟩ := Option.map_eq_some_iff.mp h
        have hnum := ih hnodup hrest
        rw [map_valuation_cons hnot, numeral, Datum.truthy, if_neg Bool.false_ne_true]
        omega

/-- What the row at a place spells. -/
theorem reading_of_getElem?_rows (hnames : names.Nodup) {j : Nat} (h : (rows names)[j]? = some a) :
    ∃ letters, a.row names = .ok letters ∧ letters.length = names.length ∧
      (∀ c ∈ letters.toList, c = 'T' ∨ c = 'F') ∧
      reading letters = 2 ^ names.length - 1 - j := by
  have hrow := row_of_mem_rows hnames (List.mem_of_getElem? h)
  rw [map_truthy_of_mem_rows hnames (List.mem_of_getElem? h)] at hrow
  refine ⟨_, hrow, ?_, ?_, ?_⟩
  · rw [← String.length_toList, toList_join_letters, List.length_map, List.length_map]
  · intro c hc
    rw [toList_join_letters] at hc
    obtain ⟨b, -, rfl⟩ := List.mem_map.mp hc
    cases b
    · exact .inr rfl
    · exact .inl rfl
  · rw [reading_join_letters]
    have hnum := numeral_of_getElem?_rows hnames h
    omega

/-- Rows that agree stand in the same place: they spell the same number. -/
theorem eq_of_valuations (hnames : names.Nodup) {b : Assignment} {i j : Nat}
    (hi : (rows names)[i]? = some a) (hj : (rows names)[j]? = some b)
    (h : ∀ name ∈ names, a.valuation name = b.valuation name) : i = j := by
  have hni := numeral_of_getElem?_rows hnames hi
  have hnj := numeral_of_getElem?_rows hnames hj
  rw [List.map_congr_left h] at hni
  omega

-- ── Rows as masks ─────────────────────────────────────────────────────────

/-- The assignment of a mask: the name at place `i` of `n` has the bit `n - 1 - i`. -/
def ofMask (names : List String) (mask : Nat) : Assignment :=
  names.zipIdx.map fun (name, i) => (name, .truth (mask.testBit (names.length - 1 - i)))

/-- The first name has the highest bit, and the others have the bits below it. -/
theorem ofMask_cons (name : String) (names : List String) (mask : Nat) :
    ofMask (name :: names) mask =
      (name, .truth (mask.testBit names.length)) :: ofMask names mask := by
  have hbits : ∀ i, names.length + 1 - 1 - (i + 1) = names.length - 1 - i := by omega
  rw [ofMask, ofMask, List.zipIdx_cons', List.map_cons, List.map_map, List.length_cons]
  refine congrArg₂ List.cons rfl (List.map_congr_left fun p _ => ?_)
  show (p.1, _) = (p.1, _)
  rw [← hbits p.2]

/-- The bits from the number of names on are not looked at. -/
theorem ofMask_two_pow_add (names : List String) (mask : Nat) :
    ofMask names (2 ^ names.length + mask) = ofMask names mask := by
  refine List.map_congr_left fun p hp => ?_
  obtain ⟨-, hlt, -⟩ := List.mem_zipIdx hp
  show (p.1, _) = (p.1, _)
  rw [Nat.testBit_two_pow_add_gt (by omega)]

/-- The rows are made as if a mask counted down. -/
theorem rows_eq_ofMask (names : List String) :
    rows names = (List.range (2 ^ names.length)).reverse.map (ofMask names) := by
  induction names with
  | nil => rfl
  | cons name names ih =>
      rw [rows, ih, List.length_cons, pow_succ, Nat.mul_two, List.range_add, List.reverse_append,
        List.map_append, ← List.map_reverse, List.map_map, List.map_map, List.map_map]
      refine congrArg₂ (· ++ ·) (List.map_congr_left fun mask hmask => ?_)
        (List.map_congr_left fun mask hmask => ?_)
      · have hlt : mask < 2 ^ names.length := List.mem_range.mp (List.mem_reverse.mp hmask)
        show _ = ofMask (name :: names) (2 ^ names.length + mask)
        rw [ofMask_cons, ofMask_two_pow_add, Nat.testBit_two_pow_add_eq,
          Nat.testBit_lt_two_pow hlt]
        rfl
      · have hlt : mask < 2 ^ names.length := List.mem_range.mp (List.mem_reverse.mp hmask)
        show _ = ofMask (name :: names) mask
        rw [ofMask_cons, Nat.testBit_lt_two_pow hlt]
        rfl

-- ── The enumeration ───────────────────────────────────────────────────────

/-- The assignments are all assignments to the names, each once, in descending
    order. -/
structure CountsDown (names : List String) (as : List Assignment) : Prop where
  length : as.length = 2 ^ names.length
  /-- Each binds the given names, in their order, and binds truth values. -/
  binds : ∀ a ∈ as, a.keys = names ∧ ∀ p ∈ a, ∃ b, p.2 = .truth b
  /-- Each function from the names to the truth values has one place. -/
  once : ∀ v : String → Bool, ∃! j : Nat, ∃ a : Assignment, as[j]? = some a ∧
    ∀ name ∈ names, a.truth? name = some (v name)
  /-- The assignment at a place spells the binary numeral that has as many digits
      as there are names. -/
  numerals : ∀ (j : Nat) (a : Assignment), as[j]? = some a → ∃ letters, a.row names = .ok letters ∧
    letters.length = names.length ∧ (∀ c ∈ letters.toList, c = 'T' ∨ c = 'F') ∧
    reading letters = 2 ^ names.length - 1 - j
  /-- They are the assignments of a mask that counts down to zero. -/
  masks : as = (List.range (2 ^ names.length)).reverse.map (ofMask names)
  descending : as.Pairwise fun a b => ∃ s t, row a names = .ok s ∧ row b names = .ok t ∧
    reading t < reading s
  first : ∃ a : Assignment, as.head? = some a ∧
    a.row names = .ok (String.ofList (List.replicate names.length 'T'))
  last : ∃ a : Assignment, as.getLast? = some a ∧
    a.row names = .ok (String.ofList (List.replicate names.length 'F'))

/-- A row with one value throughout. -/
theorem row_of_constant (hnames : names.Nodup) {b : Bool}
    (h : (names.map fun name => (name, Datum.truth b)) ∈ rows names) :
    row (names.map fun name => (name, .truth b)) names =
      .ok (String.ofList (List.replicate names.length (if b then 'T' else 'F'))) := by
  rw [row_of_mem_rows hnames h, ← String.ofList_toList (s := String.join _), toList_join_letters,
    List.map_map, List.map_map]
  refine congrArg (fun cs => Except.ok (String.ofList cs)) ?_
  show names.map (fun _ => if b then 'T' else 'F') = _
  rw [List.map_const']

theorem countsDown_rows (hnames : names.Nodup) : CountsDown names (rows names) where
  length := length_rows names
  binds := fun a ha => ⟨keys_of_mem_rows ha, exists_truth_of_mem_rows ha⟩
  once := by
    intro v
    have hagrees : ∀ {a : Assignment} {j : Nat}, (rows names)[j]? = some a →
        ((∀ name ∈ names, a.truth? name = some (v name)) ↔
          ∀ name ∈ names, a.valuation name = v name) := by
      intro a j ha
      have hcovers := covers_of_mem_rows (List.mem_of_getElem? ha)
      refine forall₂_congr fun name hn => ?_
      rw [truth?_eq_valuation (hcovers name hn), Option.some_inj]
    obtain ⟨a, ha, hv⟩ := exists_mem_rows v names
    obtain ⟨j, hj⟩ := List.mem_iff_getElem?.mp ha
    refine ⟨j, ⟨a, hj, (hagrees hj).mpr hv⟩, ?_⟩
    rintro i ⟨b, hi, hb⟩
    refine eq_of_valuations hnames hi hj fun name hn => ?_
    rw [(hagrees hi).mp hb name hn, hv name hn]
  numerals := fun j a => reading_of_getElem?_rows hnames
  masks := rows_eq_ofMask names
  descending := by
    refine List.pairwise_iff_getElem.mpr fun i j hi hj hij => ?_
    obtain ⟨s, hs, -, -, hreads⟩ :=
      reading_of_getElem?_rows hnames (List.getElem?_eq_getElem hi)
    obtain ⟨t, ht, -, -, hreadt⟩ :=
      reading_of_getElem?_rows hnames (List.getElem?_eq_getElem hj)
    refine ⟨s, t, hs, ht, ?_⟩
    rw [length_rows] at hj
    omega
  first :=
    ⟨_, head?_rows names, row_of_constant hnames (List.mem_of_mem_head? (head?_rows names))⟩
  last :=
    ⟨_, getLast?_rows names, row_of_constant hnames (List.mem_of_getLast? (getLast?_rows names))⟩

/-- **All assignments, each once, counted down.**  Names that repeat are refused.
    Of distinct names every assignment is enumerated once, in descending order of the
    numerals that the assignments spell, from the one that makes all names true to the
    one that makes all of them false. -/
theorem enumerate_countsDown (names : List String) :
    ((∃ e, enumerate names = .error e) ↔ ¬ names.Nodup) ∧
    (names.Nodup → ∃ as, enumerate names = .ok as ∧ CountsDown names as) := by
  constructor
  · constructor
    · rintro ⟨e, he⟩ hnames
      rw [enumerate, if_pos hnames] at he
      cases he
    · intro hnames
      exact ⟨names, if_neg hnames⟩
  · intro hnames
    exact ⟨rows names, if_pos hnames, countsDown_rows hnames⟩

/-- The order of the names is that of the digits, whatever the names are. -/
theorem enumerate_countsDown_three :
    ["R", "", "P"].Nodup ∧
      ∃ as, enumerate ["R", "", "P"] = .ok as ∧ CountsDown ["R", "", "P"] as := by
  have hnames : ["R", "", "P"].Nodup := by decide
  exact ⟨hnames, (enumerate_countsDown ["R", "", "P"]).2 hnames⟩

end TruthTables.Assignment
