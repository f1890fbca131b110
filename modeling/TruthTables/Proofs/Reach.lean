import TruthTables.Proofs.Prepared

/-!
# Reach — which formulas can be grown

    A grown formula is level: all its leaves lie at the depth asked for, and
    their names are from the pool.  Conversely every level formula can be
    grown: the replies that prompt it are read off the tree
    (`exists_prompts_of_leafDepths`), and they can be prepared.

    **Main result** (`random_reaches_level`): the formulas that some source
    grows are the level ones, and prepared draws already grow all of them.
-/

namespace TruthTables.Formula

/-- The depths of the leaves, left to right. -/
def leafDepths : Formula → List Nat
  | .atom .. => [0]
  | .neg f _ => f.leafDepths.map (· + 1)
  | .bin _ l r _ => (l.leafDepths ++ r.leafDepths).map (· + 1)

theorem leafDepths_ne_nil (f : Formula) : f.leafDepths ≠ [] := by
  induction f with
  | atom name i => exact List.cons_ne_nil _ _
  | neg f i ih => exact fun h => ih (List.map_eq_nil_iff.mp h)
  | bin op l r i ihl _ =>
      exact fun h => ihl (List.append_eq_nil_iff.mp (List.map_eq_nil_iff.mp h)).1

theorem blind_leafDepths : Blind leafDepths where
  atom _ _ _ := rfl
  neg _ _ h := by rw [leafDepths, leafDepths, h]
  bin _ _ _ _ _ _ _ hl hr := by rw [leafDepths, leafDepths, hl, hr]

/-- Every leaf lies at the depth, or at the root if the depth is below zero, and
    is an atom of the pool. -/
structure Level (depth : Int) (pool : List String) (f : Formula) : Prop where
  depths : ∀ k ∈ f.leafDepths, (k : Int) = max depth 0
  names : ∀ name ∈ f.leafNames, name ∈ pool

theorem level_bare_iff {depth : Int} {pool : List String} {f : Formula} :
    f.bare.Level depth pool ↔ f.Level depth pool := by
  constructor
  · rintro ⟨hdepths, hnames⟩
    rw [blind_leafDepths.bare] at hdepths
    rw [leafNames_bare] at hnames
    exact ⟨hdepths, hnames⟩
  · rintro ⟨hdepths, hnames⟩
    refine ⟨?_, ?_⟩
    · rwa [blind_leafDepths.bare]
    · rwa [leafNames_bare]

-- ── What is grown is level ────────────────────────────────────────────────

variable {a : String} {as : List String}

theorem Prompts.leafDepths_eq {depth : Nat} {log : List Reply} {f : Formula}
    (h : Prompts a as depth log f) : ∀ k ∈ f.leafDepths, k = depth := by
  induction h with
  | leaf i => exact fun k hk => List.mem_singleton.mp hk
  | neg _ _ ih =>
      intro k hk
      obtain ⟨j, hj, rfl⟩ := List.mem_map.mp hk
      exact congrArg (· + 1) (ih j hj)
  | bin i _ _ _ ihl ihr =>
      intro k hk
      obtain ⟨j, hj, rfl⟩ := List.mem_map.mp hk
      exact congrArg (· + 1) ((List.mem_append.mp hj).elim (ihl j) (ihr j))

theorem level_grow {σ : Type} [RandomSource σ] (a : String) (as : List String) (depth : Int)
    (s : σ) : ((grow a as depth.toNat).run s).1.Level depth (a :: as) := by
  obtain ⟨log, hprompts, -⟩ := exists_prompts a as depth.toNat s
  refine ⟨fun k hk => ?_, (always_grow a as depth.toNat s).2⟩
  rw [hprompts.leafDepths_eq k hk]
  omega

-- ── What is level is grown ────────────────────────────────────────────────

/-- If all leaves of some operands lie at one depth below a node, that depth is not
    zero, and seen from the operands it is one less. -/
theorem exists_depth_below {ds : List Nat} {depth : Nat} (hne : ds ≠ [])
    (h : ∀ k ∈ ds.map (· + 1), k = depth) : ∃ d, depth = d + 1 ∧ ∀ k ∈ ds, k = d := by
  obtain ⟨d, hd⟩ := List.exists_mem_of_ne_nil ds hne
  obtain rfl : d + 1 = depth := h _ (List.mem_map_of_mem hd)
  exact ⟨d, rfl, fun k hk => Nat.succ.inj (h _ (List.mem_map_of_mem hk))⟩

/-- A fraction can be prepared on either side of the rate of negations. -/
theorem exists_preparable_unit (b : Bool) :
    ∃ x : Fraction, x.below negationRate = b ∧ (Reply.unit x).Preparable := by
  cases b with
  | true => exact ⟨⟨0, 1000⟩, by decide, rfl, by decide +kernel⟩
  | false => exact ⟨⟨300, 1000⟩, by decide, rfl, by decide +kernel⟩

theorem exists_get_all (op : BinOp) : ∃ i : Fin 4, BinOp.all.get i = op := by
  cases op with
  | and => exact ⟨0, rfl⟩
  | or => exact ⟨1, rfl⟩
  | imp => exact ⟨2, rfl⟩
  | bicond => exact ⟨3, rfl⟩

/-- Replies that prompt a given tree, and can be prepared. -/
theorem exists_prompts_of_leafDepths {f : Formula} (hnames : ∀ name ∈ f.leafNames, name ∈ a :: as) :
    ∀ {depth : Nat}, (∀ k ∈ f.leafDepths, k = depth) →
      ∃ log, Prompts a as depth log f.bare ∧ ∀ reply ∈ log, reply.Preparable := by
  induction f with
  | atom name i =>
      intro depth hdepth
      obtain rfl : 0 = depth := hdepth 0 (List.mem_singleton.mpr rfl)
      obtain ⟨k, rfl⟩ := List.mem_iff_get.mp (hnames name (List.mem_singleton.mpr rfl))
      exact ⟨_, .leaf k, List.forall_mem_singleton.mpr trivial⟩
  | neg f i ih =>
      intro depth hdepth
      obtain ⟨d, rfl, hd⟩ := exists_depth_below (leafDepths_ne_nil f) hdepth
      obtain ⟨log, hprompts, hlog⟩ := ih hnames hd
      obtain ⟨x, hx, hprepare⟩ := exists_preparable_unit true
      exact ⟨_, .neg hx hprompts, List.forall_mem_cons.mpr ⟨hprepare, hlog⟩⟩
  | bin op l r i ihl ihr =>
      intro depth hdepth
      have hne : l.leafDepths ++ r.leafDepths ≠ [] :=
        fun h => leafDepths_ne_nil l (List.append_eq_nil_iff.mp h).1
      obtain ⟨d, rfl, hd⟩ := exists_depth_below hne hdepth
      obtain ⟨log, hl, hlog⟩ := ihl (fun name hn => hnames name (List.mem_append_left _ hn))
        fun k hk => hd k (List.mem_append_left _ hk)
      obtain ⟨log', hr, hlog'⟩ := ihr (fun name hn => hnames name (List.mem_append_right _ hn))
        fun k hk => hd k (List.mem_append_right _ hk)
      obtain ⟨k, rfl⟩ := exists_get_all op
      obtain ⟨x, hx, hprepare⟩ := exists_preparable_unit false
      have hlast : ∀ reply ∈ [Reply.index 3 k], reply.Preparable :=
        List.forall_mem_singleton.mpr trivial
      refine ⟨_, .bin k hx hl hr, List.forall_mem_cons.mpr ⟨hprepare, ?_⟩⟩
      exact List.forall_mem_append.mpr ⟨hlog, List.forall_mem_append.mpr ⟨hlog', hlast⟩⟩

/-- Prepared draws grow a level formula, and number it. -/
theorem Level.exists_draws {depth : Int} {t : Formula} (h : t.Level depth (a :: as)) :
    ∃ (numbers : List Nat) (d : Draws),
      random depth (a :: as) 0 (⟨numbers, 0, false⟩ : Draws) = .ok (t.number, d) := by
  have hdepth : ∀ k ∈ t.leafDepths, k = depth.toNat := by
    intro k hk
    have hmax := h.depths k hk
    omega
  obtain ⟨log, hprompts, hlog⟩ := exists_prompts_of_leafDepths h.names hdepth
  have hgives := Draws.gives_prepared hlog [] 0
  refine ⟨_, _, random_eq_ok_iff.mpr ⟨_, grow_of_prompts hprompts hgives, rfl, ?_⟩⟩
  exact (number_bare t).symm

/-- **The formulas that can be grown are the level ones.**  Over a pool that is not
    empty, and identities apart, some source of some sort makes a formula grow
    exactly when all its leaves lie at the depth asked for (at the root, if that
    is below zero) and are atoms of the pool.  For each of them there are numbers
    that a source of prepared draws grows it from. -/
theorem random_reaches_level (depth : Int) (a : String) (as : List String) (t : Formula) :
    ((∃ (σ : Type) (_ : RandomSource σ) (start : Int) (s s' : σ) (f : Formula),
        random depth (a :: as) start s = .ok (f, s') ∧ f.bare = t.bare) ↔
      t.Level depth (a :: as)) ∧
    ((∃ (numbers : List Nat) (d : Draws),
        random depth (a :: as) 0 (⟨numbers, 0, false⟩ : Draws) = .ok (t.number, d)) ↔
      t.Level depth (a :: as)) := by
  have hsound : ∀ (σ : Type) (_ : RandomSource σ) (start : Int) (s s' : σ) (f : Formula),
      random depth (a :: as) start s = .ok (f, s') → f.bare = t.bare → t.Level depth (a :: as) := by
    intro σ _ start s s' f hf hbare
    obtain ⟨g, hg, -, rfl⟩ := random_eq_ok_iff.mp hf
    have hlevel := level_grow a as depth s
    rw [hg] at hlevel
    rwa [← level_bare_iff, ← hbare, bare_numberFrom, level_bare_iff]
  refine ⟨⟨?_, ?_⟩, ⟨?_, Level.exists_draws⟩⟩
  · rintro ⟨σ, source, start, s, s', f, hf, hbare⟩
    exact hsound σ source start s s' f hf hbare
  · intro h
    obtain ⟨numbers, d, hd⟩ := h.exists_draws
    exact ⟨Draws, inferInstance, 0, _, d, t.number, hd, bare_number t⟩
  · rintro ⟨numbers, d, hd⟩
    exact hsound Draws inferInstance 0 _ d _ hd (bare_number t)

end TruthTables.Formula
