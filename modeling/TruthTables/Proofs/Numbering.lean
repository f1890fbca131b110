import TruthTables.Formula

/-!
# Numbering — identities in post-order

    `numberFrom` computes each identity from the sizes of the trees in front
    of it.  Read in post-order the identities are simply consecutive
    (`map_id_nodes`), so no two nodes of a numbered formula share one.  The
    columns of the table are some of the nodes in the same order, hence they
    too are told apart by identity (`nodup_ids`).
-/

namespace TruthTables.Formula

/-- Consecutive identities split into consecutive runs. -/
theorem idsFrom_append (start : Int) (m n : Nat) :
    idsFrom start (m + n) = idsFrom start m ++ idsFrom (start + m) n := by
  simp only [idsFrom, List.range_add, List.map_append, List.map_map]
  refine congrArg (_ ++ ·) (List.map_congr_left fun k _ => ?_)
  show start + ((m + k : Nat) : Int) = start + m + k
  omega

theorem idsFrom_one (start : Int) : idsFrom start 1 = [start] := by
  simp [idsFrom]

theorem nodup_idsFrom (start : Int) (n : Nat) : (idsFrom start n).Nodup := by
  refine List.Pairwise.map _ ?_ (List.nodup_range (n := n))
  intro a b hab heq
  exact hab (by omega)

/-- The identities of a numbered formula, in post-order, are consecutive. -/
theorem map_id_nodes (f : Formula) :
    ∀ start : Int, (f.numberFrom start).nodes.map id = (idsFrom start f.size).map some := by
  induction f with
  | atom name i =>
      intro start
      simp [numberFrom, nodes, size, id, idsFrom_one]
  | neg f i ih =>
      intro start
      simp only [numberFrom, nodes, size, List.map_append, ih, idsFrom_append, idsFrom_one]
      rfl
  | bin op l r i ihl ihr =>
      intro start
      simp only [numberFrom, nodes, size, List.map_append, ihl, ihr, idsFrom_append,
        idsFrom_one, List.append_assoc]
      have hsum : start + ((l.size + r.size : Nat) : Int) = start + l.size + r.size := by omega
      rw [hsum]
      rfl

/-- The columns are nodes, in the order of the nodes. -/
theorem subformulas_sublist_nodes (f : Formula) : f.subformulas.Sublist f.nodes := by
  induction f with
  | atom name i => exact List.nil_sublist _
  | neg f i ih => exact ih.append (List.Sublist.refl _)
  | bin op l r i ihl ihr => exact (ihl.append ihr).append (List.Sublist.refl _)

/-- No two columns of a numbered formula share an identity. -/
theorem nodup_ids (f : Formula) (start : Int) :
    ((f.numberFrom start).subformulas.map id).Nodup := by
  have hnodes : ((f.numberFrom start).nodes.map id).Nodup := by
    rw [map_id_nodes]
    refine List.Pairwise.map _ ?_ (nodup_idsFrom start f.size)
    exact fun a b hab heq => hab (Option.some.inj heq)
  exact hnodes.sublist ((subformulas_sublist_nodes _).map id)

end TruthTables.Formula
