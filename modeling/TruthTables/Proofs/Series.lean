import Mathlib.Algebra.GroupWithZero.Nat
import Mathlib.Data.List.Forall2
import TruthTables.Proofs.Numbering
import TruthTables.Proofs.Prepared

/-!
# Series — formulas grown in a row from one source

    A series threads two counters: where the source stands, and the next
    identity.  Of both the formulas take consecutive pieces.  Their
    identities, in post-order and one formula after the other, are numbered
    without a gap; and each formula takes replies of its own
    (`Formula.Takes`), as many as its shape says.  So a formula of a series is
    what a source grows that never gave the replies before.

    **Main result** (`randomSeries_drawnApart`), for every source and, in
    numbers, for prepared draws.
-/

namespace TruthTables

namespace Formula

open RandomSource (Gives gives_append)

-- ── Identities ────────────────────────────────────────────────────────────

@[simp] theorem size_numberFrom (f : Formula) (start : Int) :
    (f.numberFrom start).size = f.size := by
  rw [← size_bare, bare_numberFrom, size_bare]

@[simp] theorem numberFrom_numberFrom (f : Formula) (start start' : Int) :
    (f.numberFrom start).numberFrom start' = f.numberFrom start' := by
  rw [← numberFrom_bare, bare_numberFrom, numberFrom_bare]

@[simp] theorem draws_numberFrom (f : Formula) (start : Int) :
    (f.numberFrom start).draws = f.draws := by
  induction f generalizing start with
  | atom name i => rfl
  | neg f i ih => rw [numberFrom, draws, draws, ih]
  | bin op l r i ihl ihr => rw [numberFrom, draws, draws, ihl, ihr]

variable {σ : Type} [RandomSource σ]

/-- Grows formulas in a row over the atoms `a`, `as`, with the next identity for
    each node as it is made. -/
def growSeries (a : String) (as : List String) (depth : Nat) :
    Nat → Int → StateM σ (List Formula × Int)
  | 0, next => return ([], next)
  | count + 1, next => do
      let (f, next) ← growFrom a as depth next
      let (fs, next) ← growSeries a as depth count next
      return (f :: fs, next)

variable {a : String} {as : List String} {depth start : Int}

/-- A series is a formula and a series from where it leaves the source and the
    identities. -/
theorem randomSeries_succ_eq_ok_iff {count : Nat} {s s' : σ} {fs : List Formula} :
    randomSeries depth (a :: as) (some start) (count + 1) s = .ok (fs, s') ↔
      ∃ f u fs', random depth (a :: as) start s = .ok (f, u) ∧
        randomSeries depth (a :: as) (some (start + f.size)) count u = .ok (fs', s') ∧
        fs = f :: fs' := by
  have hseries : randomSeries depth (a :: as) (some start) (count + 1) s =
      (random depth (a :: as) start s).bind fun p =>
        (randomSeries depth (a :: as) (some (start + p.1.size)) count p.2).bind fun q =>
          .ok (p.1 :: q.1, q.2) := rfl
  rw [hseries]
  constructor
  · intro h
    cases hf : random depth (a :: as) start s with
    | error e =>
        rw [hf] at h
        cases h
    | ok p =>
        cases hfs : randomSeries depth (a :: as) (some (start + p.1.size)) count p.2 with
        | error e =>
            rw [hf, Except.bind, hfs] at h
            cases h
        | ok q =>
            rw [hf, Except.bind, hfs] at h
            cases h
            exact ⟨p.1, p.2, q.1, rfl, hfs, rfl⟩
  · rintro ⟨f, u, fs', hf, hfs, rfl⟩
    rw [hf, Except.bind, hfs]
    rfl

/-- A random formula is grown by the growing that hands out identities on the way,
    from replies that prompt it. -/
theorem exists_prompts_of_random {s u : σ} {f : Formula}
    (h : random depth (a :: as) start s = .ok (f, u)) :
    (growFrom a as depth.toNat start).run s = ((f, start + f.size), u) ∧
      (∃ g, f = g.numberFrom start ∧ ∃ log, Prompts a as depth.toNat log g ∧ Gives s log u) ∧
      RandomSource.isBroken u = false := by
  obtain ⟨g, hg, hbroken, rfl⟩ := random_eq_ok_iff.mp h
  obtain ⟨log, hprompts, hgives⟩ := exists_prompts a as depth.toNat s
  rw [hg] at hprompts hgives
  refine ⟨?_, ⟨g, rfl, log, hprompts, hgives⟩, hbroken⟩
  rw [growFrom_eq, StateT.run_bind, hg, size_numberFrom]
  rfl

/-- A source that does not break down makes a series of any length. -/
theorem exists_randomSeries (count : Nat) :
    ∀ (start : Int) (s : σ), (∀ log t, Gives s log t → RandomSource.isBroken t = false) →
      ∃ fs s', randomSeries depth (a :: as) (some start) count s = .ok (fs, s') := by
  induction count with
  | zero => exact fun start s _ => ⟨[], s, rfl⟩
  | succ count ih =>
      intro start s hsound
      obtain ⟨log, -, hgives⟩ := exists_prompts a as depth.toNat s
      rcases hg : (grow a as depth.toNat).run s with ⟨g, u⟩
      rw [hg] at hgives
      have hf : random depth (a :: as) start s = .ok (g.numberFrom start, u) :=
        random_eq_ok_iff.mpr ⟨g, hg, hsound log u hgives, rfl⟩
      obtain ⟨fs, s', hfs⟩ := ih (start + (g.numberFrom start).size) u fun log' t ht =>
        hsound (log ++ log') t (gives_append.mpr ⟨u, hgives, ht⟩)
      exact ⟨_, s', randomSeries_succ_eq_ok_iff.mpr ⟨_, u, fs, hf, hfs, rfl⟩⟩

/-- The identities of a series are handed out by one counter. -/
theorem growSeries_of_randomSeries {count : Nat} {s s' : σ} {fs : List Formula}
    (h : randomSeries depth (a :: as) (some start) count s = .ok (fs, s')) :
    fs.length = count ∧
      (growSeries a as depth.toNat count start).run s = ((fs, start + (fs.map size).sum), s') ∧
      (fs.flatMap nodes).map id = (idsFrom start (fs.map size).sum).map some := by
  induction count generalizing start s fs with
  | zero =>
      cases h
      refine ⟨rfl, ?_, rfl⟩
      rw [List.map_nil, List.sum_nil, Int.natCast_zero, Int.add_zero]
      rfl
  | succ count ih =>
      obtain ⟨f, u, fs, hf, hfs, rfl⟩ := randomSeries_succ_eq_ok_iff.mp h
      obtain ⟨hlength, hrun, hids⟩ := ih hfs
      obtain ⟨hgrow, ⟨g, rfl, -⟩, -⟩ := exists_prompts_of_random hf
      have hsum : start + (g.numberFrom start).size + (fs.map size).sum =
          start + ((g.numberFrom start).size + (fs.map size).sum : Nat) := by omega
      refine ⟨congrArg (· + 1) hlength, ?_, ?_⟩
      · rw [growSeries, StateT.run_bind, hgrow]
        show ((growSeries a as depth.toNat count _ >>= _).run u : _) = _
        rw [StateT.run_bind, hrun, hsum]
        rfl
      · rw [List.flatMap_cons, List.map_append, hids, map_id_nodes, List.map_cons, List.sum_cons,
          idsFrom_append, List.map_append, size_numberFrom]

-- ── Draws ─────────────────────────────────────────────────────────────────

/-- A formula takes these replies: as many as its shape says, and any source, of
    whatever sort, that gives them grows the formula from them alone. -/
def Takes (depth : Int) (a : String) (as : List String) (f : Formula) (log : List Reply) : Prop :=
  log.length = f.draws ∧ ∀ (τ : Type) [RandomSource τ] (u v : τ), Gives u log v →
    RandomSource.isBroken v = false →
    ∀ start : Int, random depth (a :: as) start u = .ok (f.numberFrom start, v)

/-- Replies that prompt a formula are what it takes. -/
theorem Prompts.takes {log : List Reply} {g : Formula} (h : Prompts a as depth.toNat log g)
    (start : Int) : Takes depth a as (g.numberFrom start) log := by
  refine ⟨by rw [h.length_eq, draws_numberFrom], ?_⟩
  intro τ _ u v hgives hbroken start'
  rw [numberFrom_numberFrom]
  exact random_eq_ok_iff.mpr ⟨g, grow_of_prompts h hgives, hbroken, rfl⟩

/-- The formulas were grown one after the other, each from replies of its own. -/
structure DrawnApart (depth : Int) (a : String) (as : List String) (s : σ) (fs : List Formula)
    (logs : List (List Reply)) (s' : σ) : Prop where
  takes : List.Forall₂ (Takes depth a as) fs logs
  /-- Nothing else was drawn. -/
  gives : Gives s logs.flatten s'
  /-- Each formula is what is grown from the source without the draws of those before
      it, identities apart. -/
  fresh : ∀ (i : Nat) (f : Formula), fs[i]? = some f → ∃ u v, Gives s (logs.take i).flatten u ∧
    ∀ start : Int, random depth (a :: as) start u = .ok (f.numberFrom start, v)

theorem drawnApart_nil (s : σ) : DrawnApart depth a as s [] [] s :=
  ⟨.nil, rfl, fun _ _ h => by cases h⟩

theorem DrawnApart.cons {s u s' : σ} {f : Formula} {fs : List Formula} {logs : List (List Reply)}
    (hf : random depth (a :: as) start s = .ok (f, u))
    (h : DrawnApart depth a as u fs logs s') :
    ∃ log, DrawnApart depth a as s (f :: fs) (log :: logs) s' := by
  obtain ⟨-, ⟨g, rfl, log, hprompts, hgives⟩, hbroken⟩ := exists_prompts_of_random hf
  have htakes := hprompts.takes start
  refine ⟨log, .cons htakes h.takes, gives_append.mpr ⟨u, hgives, h.gives⟩, ?_⟩
  intro i f' hf'
  cases i with
  | zero =>
      cases hf'
      exact ⟨s, u, rfl, htakes.2 σ s u hgives hbroken⟩
  | succ i =>
      obtain ⟨v, w, hv, hfresh⟩ := h.fresh i f' hf'
      exact ⟨v, w, gives_append.mpr ⟨u, hgives, hv⟩, hfresh⟩

theorem exists_drawnApart {count : Nat} {s s' : σ} {fs : List Formula}
    (h : randomSeries depth (a :: as) (some start) count s = .ok (fs, s')) :
    ∃ logs, DrawnApart depth a as s fs logs s' := by
  induction count generalizing start s fs with
  | zero =>
      cases h
      exact ⟨[], drawnApart_nil _⟩
  | succ count ih =>
      obtain ⟨f, u, fs, hf, hfs, rfl⟩ := randomSeries_succ_eq_ok_iff.mp h
      obtain ⟨logs, hlogs⟩ := ih hfs
      obtain ⟨log, hlog⟩ := hlogs.cons hf
      exact ⟨log :: logs, hlog⟩

/-- The replies for the first formulas are as many as these formulas take. -/
theorem DrawnApart.length_take {s s' : σ} {fs : List Formula} {logs : List (List Reply)}
    (h : DrawnApart depth a as s fs logs s') (i : Nat) :
    (logs.take i).flatten.length = ((fs.take i).map draws).sum := by
  have hlengths : logs.map List.length = fs.map draws := by
    have htakes := h.takes
    clear h
    induction htakes with
    | nil => rfl
    | cons hlog _ ih => rw [List.map_cons, List.map_cons, hlog.1, ih]
  rw [List.length_flatten, List.map_take, hlengths, ← List.map_take]

/-- In numbers: where a series leaves prepared draws, and which of them each formula
    is grown from. -/
theorem DrawnApart.prepared {d d' : Draws} {fs : List Formula} {logs : List (List Reply)}
    (h : DrawnApart depth a as d fs logs d') :
    d'.used = d.used + (fs.map draws).sum ∧ d'.rest = d.rest.drop (fs.map draws).sum ∧
      ∀ (i : Nat) (f : Formula), fs[i]? = some f →
        let n := ((fs.take i).map draws).sum
        ∃ e : Draws, e.used = d.used + n + f.draws ∧ ∀ start : Int,
          random depth (a :: as) start (⟨d.rest.drop n, d.used + n, false⟩ : Draws) =
            .ok (f.numberFrom start, e) := by
  have hall := h.length_take fs.length
  rw [List.take_length, h.takes.length_eq, List.take_length] at hall
  obtain ⟨hrest, hused, -⟩ := Draws.taken_of_gives h.gives
  rw [hall] at hrest hused
  refine ⟨hused, hrest, fun i f hf => ?_⟩
  obtain ⟨u, v, hu, hfresh⟩ := h.fresh i f hf
  obtain ⟨hurest, huused, -⟩ := Draws.taken_of_gives hu
  rw [h.length_take i] at hurest huused
  obtain ⟨-, ⟨g, hg, log, hprompts, hgives⟩, hbroken⟩ := exists_prompts_of_random (hfresh 0)
  obtain ⟨-, hvused, hkept⟩ := Draws.taken_of_gives hgives
  have hubroken : u.broken = false := hkept hbroken
  have hdraws : log.length = f.draws := by
    rw [hprompts.length_eq, ← draws_numberFrom g 0, ← hg, draws_numberFrom]
  obtain ⟨rest, used, broken⟩ := u
  dsimp only at hurest huused hubroken
  subst hurest huused hubroken
  exact ⟨v, by rw [hvused, hdraws], hfresh⟩

/-- **A series takes consecutive identities and consecutive draws.**  Whatever the
    source, as long as it does not break down, formulas can be grown in a row.  One
    counter hands out their identities: in post-order, one formula after the
    other, they are consecutive, and none occurs twice.  A formula with `u` negations
    and `b` joins takes `1 + u + 3 * b` replies and nothing else; so it is, up to
    where its identities start, what is grown from the source without the draws of
    the formulas before it.  Of prepared draws each reply takes one. -/
theorem randomSeries_drawnApart (depth start : Int) (a : String) (as : List String) (count : Nat) :
    (∀ (σ : Type) [RandomSource σ] (s : σ),
      ((∀ log t, Gives s log t → RandomSource.isBroken t = false) →
        ∃ fs s', randomSeries depth (a :: as) (some start) count s = .ok (fs, s')) ∧
      ∀ (fs : List Formula) (s' : σ),
        randomSeries depth (a :: as) (some start) count s = .ok (fs, s') →
        fs.length = count ∧
        (growSeries a as depth.toNat count start).run s =
          ((fs, start + (fs.map size).sum), s') ∧
        (fs.flatMap nodes).map id = (idsFrom start (fs.map size).sum).map some ∧
        ((fs.flatMap nodes).map id).Nodup ∧
        (∀ f ∈ fs, f.draws = 1 + f.negations + 3 * f.joins) ∧
        ∃ logs, DrawnApart depth a as s fs logs s') ∧
    ∀ (d d' : Draws) (fs : List Formula),
      randomSeries depth (a :: as) (some start) count d = .ok (fs, d') →
      d'.used = d.used + (fs.map draws).sum ∧ d'.rest = d.rest.drop (fs.map draws).sum ∧
      ∀ (i : Nat) (f : Formula), fs[i]? = some f →
        let n := ((fs.take i).map draws).sum
        ∃ e : Draws, e.used = d.used + n + f.draws ∧ ∀ start' : Int,
          random depth (a :: as) start' (⟨d.rest.drop n, d.used + n, false⟩ : Draws) =
            .ok (f.numberFrom start', e) := by
  refine ⟨fun σ _ s => ⟨exists_randomSeries count start s, fun fs s' h => ?_⟩, ?_⟩
  · obtain ⟨hlength, hrun, hids⟩ := growSeries_of_randomSeries h
    refine ⟨hlength, hrun, hids, ?_, fun f _ => draws_eq f, exists_drawnApart h⟩
    rw [hids]
    exact List.Pairwise.map _ (fun x y hne heq => hne (Option.some.inj heq)) (nodup_idsFrom start _)
  · intro d d' fs h
    obtain ⟨logs, hlogs⟩ := exists_drawnApart h
    exact hlogs.prepared

end Formula

end TruthTables
