import TruthTables.Ascending

/-!
# Ascending lists — same members, strict order

    `ofList` keeps the members of a list (`mem_ofList`), puts them in strict
    order (`pairwise_ofList`), and so writes each once (`nodup_ofList`).
-/

namespace TruthTables.Ascending

section

variable {α : Type} [LT α] [DecidableLT α] [DecidableEq α]

theorem mem_insert {x y : α} {ys : List α} : x ∈ insert y ys ↔ x = y ∨ x ∈ ys := by
  fun_induction insert y ys with
  | case1 => simp
  | case2 => simp
  | case3 => simp
  | case4 z ys hlt hne ih =>
      rw [List.mem_cons, ih, List.mem_cons]
      exact or_left_comm

/-- Putting in order keeps the members. -/
@[simp] theorem mem_ofList {x : α} {xs : List α} : x ∈ ofList xs ↔ x ∈ xs := by
  rw [ofList]
  induction xs with
  | nil => rfl
  | cons y ys ih => rw [List.foldr_cons, mem_insert, ih, List.mem_cons]

end

variable {α : Type} [LT α] [LE α] [DecidableLT α] [DecidableEq α]
variable [Std.IsLinearOrder α] [Std.LawfulOrderLT α]

theorem pairwise_insert {x : α} {ys : List α} (h : ys.Pairwise (· < ·)) :
    (insert x ys).Pairwise (· < ·) := by
  fun_induction insert x ys with
  | case1 => exact List.pairwise_singleton _ _
  | case2 y ys hlt =>
      refine List.pairwise_cons.mpr ⟨?_, h⟩
      intro z hz
      rcases List.mem_cons.mp hz with rfl | hz
      · exact hlt
      · exact Std.lt_trans hlt ((List.pairwise_cons.mp h).1 z hz)
  | case3 => exact h
  | case4 y ys hlt hne ih =>
      obtain ⟨hall, htail⟩ := List.pairwise_cons.mp h
      refine List.pairwise_cons.mpr ⟨?_, ih htail⟩
      intro z hz
      rcases mem_insert.mp hz with rfl | hz
      · rcases Std.lt_trichotomy y z with h' | h' | h'
        · exact h'
        · exact absurd h'.symm hne
        · exact absurd h' hlt
      · exact hall z hz

/-- The members come out in strictly ascending order. -/
theorem pairwise_ofList (xs : List α) : (ofList xs).Pairwise (· < ·) := by
  rw [ofList]
  induction xs with
  | nil => exact List.Pairwise.nil
  | cons y ys ih => exact pairwise_insert ih

/-- Each member is written once. -/
theorem nodup_ofList (xs : List α) : (ofList xs).Nodup :=
  (pairwise_ofList xs).imp Std.ne_of_lt

end TruthTables.Ascending
