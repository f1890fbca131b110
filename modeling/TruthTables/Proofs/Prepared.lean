import TruthTables.Random.Draws
import TruthTables.Proofs.Replies

/-!
# Prepared draws — each reply takes one number

    A source of prepared draws answers every question from the next number of
    its list, so after some replies it stands that many numbers further on
    (`taken_of_gives`).  And replies can be prepared: the numbers for them make
    the source give them (`gives_prepared`).
-/

namespace TruthTables

/-- The number to prepare for a reply. -/
def Reply.number : Reply → Nat
  | .unit x => x.num
  | .index _ i => i

/-- Whether a prepared number can make the reply: fractions are thousandths, and
    not too great. -/
def Reply.Preparable : Reply → Prop
  | .unit x => x.den = 1000 ∧ (Number.nearest false x.num 1000).isInfinite = false
  | .index .. => True

namespace Draws

open RandomSource (Gives)

-- ── One draw ──────────────────────────────────────────────────────────────

theorem run_next (d : Draws) :
    next.run d = (d.rest.headD 0, { d with rest := d.rest.tail, used := d.used + 1 }) := by
  obtain ⟨rest, used, broken⟩ := d
  cases rest <;> rfl

theorem run_index (d : Draws) (last : Nat) :
    (RandomSource.index last).run d =
      (Fin.ofNat (last + 1) (d.rest.headD 0),
        { d with rest := d.rest.tail, used := d.used + 1 }) := by
  show (Fin.ofNat (last + 1) (next.run d).1, (next.run d).2) = _
  rw [run_next]

/-- A fraction is thousandths, and breaks the source if it is too great. -/
theorem run_unit (d : Draws) :
    RandomSource.unit.run d =
      (⟨d.rest.headD 0, 1000⟩,
        ⟨d.rest.tail, d.used + 1,
          d.broken || (Number.nearest false (d.rest.headD 0) 1000).isInfinite⟩) := by
  simp only [RandomSource.unit, unit, StateT.run_bind, run_next]
  show StateT.run (if (Number.nearest false (d.rest.headD 0) 1000).isInfinite then _ else _) _ = _
  cases (Number.nearest false (d.rest.headD 0) 1000).isInfinite with
  | true =>
      rw [if_pos rfl, Bool.or_true]
      rfl
  | false =>
      rw [if_neg Bool.false_ne_true, Bool.or_false]
      rfl

-- ── Several draws ─────────────────────────────────────────────────────────

/-- After some replies as many numbers are used up, from the front, and a source that
    is not broken then has not been before. -/
theorem taken_of_gives {log : List Reply} {d e : Draws} (h : Gives d log e) :
    e.rest = d.rest.drop log.length ∧ e.used = d.used + log.length ∧
      (e.broken = false → d.broken = false) := by
  induction log generalizing d with
  | nil =>
      obtain rfl : d = e := h
      exact ⟨rfl, rfl, fun hb => hb⟩
  | cons reply log ih =>
      -- either question takes the first number
      have hstep : ∃ d' : Draws, d'.rest = d.rest.tail ∧ d'.used = d.used + 1 ∧
          (d'.broken = false → d.broken = false) ∧ Gives d' log e := by
        cases reply with
        | unit x =>
            have hlog := h.2
            rw [run_unit] at hlog
            exact ⟨_, rfl, rfl, fun hb => (Bool.or_eq_false_iff.mp hb).1, hlog⟩
        | index last i =>
            have hlog := h.2
            rw [run_index] at hlog
            exact ⟨{ d with rest := d.rest.tail, used := d.used + 1 }, rfl, rfl, fun hb => hb, hlog⟩
      obtain ⟨d', hrest, hused, hbroken, hlog⟩ := hstep
      obtain ⟨hrest', hused', hbroken'⟩ := ih hlog
      rw [hrest', hused', hrest, hused, List.length_cons, List.drop_tail]
      exact ⟨rfl, by omega, fun hb => hbroken (hbroken' hb)⟩

/-- Prepared numbers make the source give the replies that they were prepared
    for. -/
theorem gives_prepared {log : List Reply} (h : ∀ reply ∈ log, reply.Preparable)
    (rest : List Nat) (used : Nat) :
    Gives (⟨log.map Reply.number ++ rest, used, false⟩ : Draws) log
      ⟨rest, used + log.length, false⟩ := by
  induction log generalizing used with
  | nil => rfl
  | cons reply log ih =>
      obtain ⟨hreply, hlog⟩ := List.forall_mem_cons.mp h
      have hrest := ih hlog (used + 1)
      rw [Nat.add_assoc, Nat.add_comm 1] at hrest
      cases reply with
      | unit x =>
          obtain ⟨num, den⟩ := x
          obtain ⟨rfl, hnum⟩ := hreply
          rw [Gives, run_unit]
          refine ⟨rfl, ?_⟩
          simp only [Reply.number, List.map_cons, List.cons_append, List.headD_cons, hnum]
          exact hrest
      | index last i =>
          rw [Gives, run_index]
          exact ⟨Fin.ofNat_val_eq_self i, hrest⟩

end Draws

end TruthTables
