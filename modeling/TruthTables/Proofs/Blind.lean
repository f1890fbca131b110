import TruthTables.Formula.Printer

/-!
# Blindness — readings of a formula that ignore identities

    Most of what is computed from a formula goes through its tree, takes what
    it has found of the operands, and makes of it what it finds of the whole.
    If it never looks at an identity on the way, two formulas that differ in
    identities alone are read alike.

    `Blind` says this of one step, and the induction over the tree is done here
    once (`Blind.mapIds`).  It remains to see of each reading that its steps are
    blind, one constructor at a time.
-/

namespace TruthTables.Formula

/-- A reading of formulas whose steps are blind to identities: what it makes of a
    formula depends on the root, without its identity, and on what it makes of
    the operands. -/
structure Blind {α : Type} (read : Formula → α) : Prop where
  atom : ∀ name i j, read (.atom name i) = read (.atom name j)
  neg : ∀ {f g} i j, read f = read g → read (.neg f i) = read (.neg g j)
  bin : ∀ op {l l' r r'} i j, read l = read l' → read r = read r' →
    read (.bin op l r i) = read (.bin op l' r' j)

namespace Blind

variable {α : Type} {read : Formula → α}

/-- A blind reading does not see other identities. -/
theorem mapIds (h : Blind read) (rename : NodeId → NodeId) (f : Formula) :
    read (f.mapIds rename) = read f := by
  induction f with
  | atom name i => exact h.atom name (rename i) i
  | neg f i ih => exact h.neg (rename i) i ih
  | bin op l r i ihl ihr => exact h.bin op (rename i) i ihl ihr

/-- A blind reading reads the bare tree. -/
theorem bare (h : Blind read) (f : Formula) : read f.bare = read f := h.mapIds _ f

/-- A blind reading reads formulas alike that are structurally equal. -/
theorem eq_of_bare (h : Blind read) {f g : Formula} (hfg : f.bare = g.bare) :
    read f = read g := by
  rw [← h.bare f, hfg, h.bare g]

end Blind

-- ── Blind readings ────────────────────────────────────────────────────────

/-- Taking the identities away is blind to them. -/
theorem blind_bare : Blind Formula.bare where
  atom _ _ _ := rfl
  neg _ _ h := congrArg (Formula.neg · none) h
  bin op l l' r r' _ _ hl hr := by
    show Formula.bin op l.bare r.bare none = .bin op l'.bare r'.bare none
    rw [hl, hr]

/-- Identities are not printed. -/
theorem blind_render (g : Glyphs) : Blind (render g) where
  atom _ _ _ := rfl
  neg _ _ h := by rw [render, render, h]
  bin _ _ _ _ _ _ _ hl hr := by rw [render, render, hl, hr]

theorem blind_leafNames : Blind leafNames where
  atom _ _ _ := rfl
  neg _ _ h := h
  bin _ _ _ _ _ _ _ hl hr := by rw [leafNames, leafNames, hl, hr]

theorem blind_size : Blind size where
  atom _ _ _ := rfl
  neg _ _ h := by rw [size, size, h]
  bin _ _ _ _ _ _ _ hl hr := by rw [size, size, hl, hr]

@[simp] theorem render_bare (g : Glyphs) (f : Formula) : f.bare.render g = f.render g :=
  (blind_render g).bare f

@[simp] theorem leafNames_bare (f : Formula) : f.bare.leafNames = f.leafNames :=
  blind_leafNames.bare f

@[simp] theorem size_bare (f : Formula) : f.bare.size = f.size := blind_size.bare f

end TruthTables.Formula
