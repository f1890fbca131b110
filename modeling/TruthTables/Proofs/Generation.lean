import TruthTables.Proofs.Issuing
import TruthTables.Proofs.Strictness

/-!
# Generation — practice questions are loaded as they were drawn

    A question is shown as the canonical text of a formula that was grown from
    random answers.  A learner's program loads that text.  What it gets is the
    very formula, with every identity, and no warning, whatever the source
    answers (`draw_loads`).

    Two facts meet.  What is grown has leaves from the pool and the depth asked
    for (`always_grow`), so a question is lettered.  And the canonical text of
    a numbered, lettered formula is loaded as this formula
    (`Loaded.ofText_unicode_eq`): the tree is read back, and a text is
    numbered from zero like a question.
-/

namespace TruthTables

-- ── Numbered formulas are loaded as they are ──────────────────────────────

namespace Formula

/-- Numbering does not look at the identities that were there. -/
@[simp] theorem numberFrom_bare (f : Formula) :
    ∀ start : Int, f.bare.numberFrom start = f.numberFrom start := by
  have hsize : ∀ g : Formula, (g.mapIds fun _ => none).size = g.size := size_bare
  simp only [bare]
  induction f with
  | atom name i =>
      intro start
      rfl
  | neg f i ih =>
      intro start
      simp only [mapIds, numberFrom, ih, hsize]
  | bin op l r i ihl ihr =>
      intro start
      simp only [mapIds, numberFrom, ihl, ihr, hsize]

@[simp] theorem bare_number (f : Formula) : f.number.bare = f.bare := bare_numberFrom f 0

@[simp] theorem number_bare (f : Formula) : f.bare.number = f.number := numberFrom_bare f 0

/-- What a text is read as is numbered from zero. -/
theorem number_eq_of_ofText {text : String} {f : Formula} (h : ofText text = .ok f) :
    f.number = f := by
  obtain ⟨ts, -, hf⟩ := ofText_eq_ok_iff.mp h
  obtain ⟨s, g, -, -, rfl⟩ := (ofTokens_eq_ok_iff ts f).mp hf
  rw [← number_bare g.number, bare_number, number_bare]

/-- A lettered formula that is numbered is read back with its identities. -/
theorem ofText_render_eq_number {g : Glyphs} (hg : g.Readable) {f : Formula} (hf : f.Lettered) :
    ofText (f.render g) = .ok f.number := by
  obtain ⟨f', hf', hbare⟩ := exists_ofText_render hg hf
  rw [hf', ← number_eq_of_ofText hf', ← number_bare f', hbare, number_bare]

end Formula

/-- The canonical text of a lettered formula is loaded as the numbered formula. -/
theorem Loaded.ofText_unicode_eq {f : Formula} (hf : f.Lettered) :
    ofText f.unicode = .ok ⟨f.number, f.unicode, false⟩ := by
  obtain ⟨l, hl, hcanonical, hwarns⟩ := ofText_unicode hf
  obtain ⟨f', hf', rfl⟩ := ofText_eq_ok_iff.mp hl
  dsimp only at hcanonical hwarns
  have hroot : Formula.ofText f.unicode = .ok f.number :=
    Formula.ofText_render_eq_number Glyphs.readable_unicode hf
  rw [hroot] at hf'
  cases hf'
  rw [hl, hcanonical, hwarns]

-- ── What is grown ─────────────────────────────────────────────────────────

/-- The number of connectives on the longest way from the root to a leaf. -/
def Formula.depth : Formula → Nat
  | .atom .. => 0
  | .neg f _ => f.depth + 1
  | .bin _ l r _ => max l.depth r.depth + 1

theorem Formula.blind_depth : Blind depth where
  atom _ _ _ := rfl
  neg _ _ h := by rw [depth, depth, h]
  bin _ _ _ _ _ _ _ hl hr := by rw [depth, depth, hl, hr]

@[simp] theorem Formula.depth_number (f : Formula) : f.number.depth = f.depth :=
  blind_depth.eq_of_bare (bare_number f)

@[simp] theorem Formula.leafNames_number (f : Formula) : f.number.leafNames = f.leafNames :=
  blind_leafNames.eq_of_bare (bare_number f)

/-- Whatever the source is and answers, the outcome has the property. -/
def Always {σ α : Type} (m : StateM σ α) (P : α → Prop) : Prop := ∀ s, P (m.run s).1

namespace Always

variable {σ α β : Type}

theorem pure {P : α → Prop} {x : α} (h : P x) : Always (σ := σ) (Pure.pure x) P := fun _ => h

theorem bind {m : StateM σ α} {k : α → StateM σ β} {P : α → Prop} {Q : β → Prop}
    (hm : Always m P) (hk : ∀ x, P x → Always (k x) Q) : Always (m >>= k) Q :=
  fun s => hk _ (hm s) (m.run s).2

theorem true (m : StateM σ α) : Always m fun _ => True := fun _ => trivial

end Always

variable {σ : Type} [RandomSource σ]

theorem RandomSource.always_choose {α : Type} (x : α) (xs : List α) :
    Always (choose (σ := σ) x xs) (· ∈ x :: xs) :=
  (Always.true (index xs.length)).bind fun i _ => .pure (List.get_mem (x :: xs) i)

namespace Formula

/-- What is grown has the depth asked for, and its leaves are from the pool. -/
theorem always_grow (a : String) (as : List String) (depth : Nat) :
    Always (grow (σ := σ) a as depth) fun f =>
      f.depth = depth ∧ ∀ name ∈ f.leafNames, name ∈ a :: as := by
  induction depth with
  | zero =>
      refine (RandomSource.always_choose a as).bind fun name hname => .pure ⟨rfl, ?_⟩
      intro n hn
      rwa [List.mem_singleton.mp hn]
  | succ depth ih =>
      refine (Always.true RandomSource.unit).bind fun x _ => ?_
      split
      · refine ih.bind fun f hf => .pure ⟨congrArg (· + 1) hf.1, hf.2⟩
      · refine ih.bind fun l hl => ih.bind fun r hr => ?_
        refine (Always.true _).bind fun op _ => .pure ⟨?_, ?_⟩
        · show max l.depth r.depth + 1 = depth + 1
          rw [hl.1, hr.1, Nat.max_self]
        · intro name hn
          exact (List.mem_append.mp hn).elim (hl.2 name) (hr.2 name)

end Formula

namespace Question

/-- The atoms that questions draw from; each takes the first two or three. -/
def pool : List String := ["P", "Q", "R", "S"]

/-- A number of atoms and a depth are drawn, and then a formula is grown. -/
theorem draw_eq (s : σ) :
    let count := (RandomSource.index 1).run s
    let depth := (RandomSource.index 2).run count.2
    let atoms := pool.take (2 + count.1.val)
    (draw.run s).1 = ⟨atoms, 1 + depth.1.val,
      ((Formula.grow "P" (atoms.drop 1) (1 + depth.1.val)).run depth.2).1.number⟩ := by
  have htake : ∀ i : Fin 2, ["P", "Q", "R"].take (2 + i.val) = pool.take (2 + i.val) := by decide
  intro count depth atoms
  rw [show atoms = ["P", "Q", "R"].take (2 + count.1.val) from (htake _).symm]
  rfl

/-- Names from the pool are letters of the alphabet, and none of them is V. -/
theorem lettered_of_pool {f : Formula} (h : ∀ name ∈ f.leafNames, name ∈ pool) : f.Lettered := by
  intro name hn
  have hname : name = "P" ∨ name = "Q" ∨ name = "R" ∨ name = "S" := by
    simpa [pool] using h name hn
  rcases hname with rfl | rfl | rfl | rfl
  · exact ⟨'P', by decide, by decide, by decide, rfl⟩
  · exact ⟨'Q', by decide, by decide, by decide, rfl⟩
  · exact ⟨'R', by decide, by decide, by decide, rfl⟩
  · exact ⟨'S', by decide, by decide, by decide, rfl⟩

/-- A question has the depth that was drawn, and its atoms are the first two or
    three of the pool. -/
theorem grown_draw (s : σ) :
    let q := (draw.run s).1
    q.formula.depth = q.depth ∧ (q.atoms = ["P", "Q"] ∨ q.atoms = ["P", "Q", "R"]) ∧
      ∀ name ∈ q.formula.leafNames, name ∈ q.atoms := by
  intro q
  have hpool : ∀ i : Fin 2, pool.take (2 + i.val) = ["P", "Q"] ∨
      pool.take (2 + i.val) = ["P", "Q", "R"] := by decide
  have hq : q = _ := draw_eq s
  rw [hq, Formula.depth_number, Formula.leafNames_number]
  generalize (RandomSource.index (σ := σ) 1).run s = count
  generalize (RandomSource.index (σ := σ) 2).run count.2 = depth
  have hatoms : "P" :: (pool.take (2 + count.1.val)).drop 1 = pool.take (2 + count.1.val) := by
    rcases hpool count.1 with h | h <;> rw [h] <;> rfl
  have hgrow := Formula.always_grow "P" ((pool.take (2 + count.1.val)).drop 1)
    (1 + depth.1.val) depth.2
  rw [hatoms] at hgrow
  exact ⟨hgrow.1, hpool count.1, hgrow.2⟩

theorem lettered_draw (s : σ) : (draw.run s).1.formula.Lettered := by
  obtain ⟨-, hatoms, hnames⟩ := grown_draw s
  refine lettered_of_pool fun name hn => ?_
  have hn := hnames name hn
  rcases hatoms with h | h
  · rw [h] at hn
    exact List.mem_of_mem_take (i := 2) hn
  · rw [h] at hn
    exact List.mem_of_mem_take (i := 3) hn

theorem number_draw (s : σ) : (draw.run s).1.formula.number = (draw.run s).1.formula := by
  rw [draw_eq s, ← Formula.number_bare, Formula.bare_number, Formula.number_bare]

/-- The text of a question is loaded as its formula. -/
theorem ofText_draw (s : σ) : Formula.ofText (draw.run s).1.text = .ok (draw.run s).1.formula := by
  have hread := Formula.ofText_render_eq_number Glyphs.readable_unicode (lettered_draw s)
  rwa [number_draw] at hread

/-- **A question is loaded as it was drawn.**  Whatever the source answers, two or
    three atoms and a depth from one to three are drawn, and a formula is grown
    with its identities.  The formula has this depth and no other atoms.  The
    text of the question is loaded as the formula, every identity included, as a
    canonical text and without a warning; and a reader that hands out identities
    as it makes nodes hands out the same ones. -/
theorem draw_loads {σ : Type} [RandomSource σ] (s : σ) :
    let count := (RandomSource.index 1).run s
    let depth := (RandomSource.index 2).run count.2
    let atoms := pool.take (2 + count.1.val)
    let t := ((Formula.growFrom "P" (atoms.drop 1) (1 + depth.1.val) 0).run depth.2).1.1
    let q := (draw.run s).1
    q = ⟨atoms, 1 + depth.1.val, t⟩ ∧
      (t.depth = 1 + depth.1.val ∧ 1 ≤ t.depth ∧ t.depth ≤ 3) ∧
      (atoms = ["P", "Q"] ∨ atoms = ["P", "Q", "R"]) ∧ (∀ name ∈ t.leafNames, name ∈ atoms) ∧
      Loaded.ofText q.text = .ok ⟨t, q.text, false⟩ ∧
      ∃ ts, Token.scan q.text = .ok ts ∧ Parser.issue ts = .ok t := by
  intro count depth atoms t q
  have hq : q = ⟨atoms, 1 + depth.1.val, t⟩ := by
    show (draw.run s).1 = ⟨_, _, ((Formula.growFrom "P" (atoms.drop 1) (1 + depth.1.val) 0).run
      depth.2).1.1⟩
    rw [draw_eq s, Formula.growFrom_eq]
    rfl
  have hdepth : t.depth = 1 + depth.1.val ∧ (atoms = ["P", "Q"] ∨ atoms = ["P", "Q", "R"]) ∧
      ∀ name ∈ t.leafNames, name ∈ atoms := by
    have hgrown := grown_draw s
    dsimp only at hgrown
    rwa [show (draw.run s).1 = _ from hq] at hgrown
  obtain ⟨hdepth, hatoms, hnames⟩ := hdepth
  have hread : Formula.ofText q.text = .ok t := by
    rw [ofText_draw s]
    exact congrArg (fun q => Except.ok q.formula) hq
  have hload : Loaded.ofText q.text = .ok ⟨t, q.text, false⟩ := by
    have h := Loaded.ofText_unicode_eq (lettered_draw s)
    rw [number_draw] at h
    rw [show t = q.formula from (congrArg Question.formula hq).symm]
    exact h
  refine ⟨hq, ⟨hdepth, by omega, by omega⟩, hatoms, hnames, hload, ?_⟩
  obtain ⟨ts, hts, hf⟩ := Formula.ofText_eq_ok_iff.mp hread
  exact ⟨ts, hts, (Parser.issue_eq_ofTokens ts).trans hf⟩

end Question

end TruthTables
