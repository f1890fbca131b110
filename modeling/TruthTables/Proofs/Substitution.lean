import Mathlib.Data.List.Basic
import TruthTables.Formula.Printer
import TruthTables.Spelling
import TruthTables.Token

/-!
# Substitution — rules in turn, and all at once

    A text is normalised by rules that are applied one after another, each to
    what the rules before it have left.  In general the order of such rules
    matters, since one may take up what another has produced.

    Here it does not.  A substitution says what becomes of a character, and
    rules `Perform` it when each of them does what it says, when characters
    that no rule is for are to stay, and when what it produces is to stay as
    well.  Such rules amount to the substitution, done to each character by
    itself (`Perform.applyAll_eq_flatMap`).  Nothing in this refers to the
    order of the rules, so they do the same in any other order; and since what
    is produced stays, once is enough.

    **Main result** (`normalize_eq_respelt`).  The rules for spelling perform
    the substitution that drops blanks and spells connectives in ASCII.
-/

namespace TruthTables.Spelling

/-- What becomes of a character: a blank vanishes, a connective gets its ASCII
    spelling, and everything else stays. -/
def respell (c : Char) : List Char :=
  if Text.isBlank c then []
  else
    match Symbol.ofChar? c with
    | some (.connective k) => (Glyphs.ascii.symbol k).toList
    | _ => [c]

-- ── Rules that perform a substitution ─────────────────────────────────────

/-- The rules do to a character what the substitution says, and no rule is needed
    for what it produces. -/
structure Perform (rs : List Rule) (subst : Char → List Char) : Prop where
  replaced : ∀ r ∈ rs, ∀ c, r.applies c = true → r.replacement = subst c
  kept : ∀ c, (∀ r ∈ rs, r.applies c = false) → subst c = [c]
  settled : ∀ c, ∀ d ∈ subst c, subst d = [d]

/-- A rule replaces a character that it is for, and leaves any other. -/
theorem Rule.apply_singleton (r : Rule) (c : Char) :
    r.apply [c] = if r.applies c then r.replacement else [c] :=
  List.flatMap_singleton ..

theorem Rule.apply_append (r : Rule) (cs ds : List Char) :
    r.apply (cs ++ ds) = r.apply cs ++ r.apply ds :=
  List.flatMap_append

theorem applyAll_append (rs : List Rule) :
    ∀ cs ds : List Char, applyAll rs (cs ++ ds) = applyAll rs cs ++ applyAll rs ds := by
  induction rs with
  | nil =>
      intro cs ds
      rfl
  | cons r rs ih =>
      intro cs ds
      show applyAll rs (r.apply (cs ++ ds)) = applyAll rs (r.apply cs) ++ applyAll rs (r.apply ds)
      rw [r.apply_append]
      exact ih _ _

/-- Rules in turn leave a text that each of them leaves. -/
theorem applyAll_of_fixed {rs : List Rule} {cs : List Char} (h : ∀ r ∈ rs, r.apply cs = cs) :
    applyAll rs cs = cs := by
  induction rs with
  | nil => rfl
  | cons r rs ih =>
      show applyAll rs (r.apply cs) = cs
      rw [h r (List.mem_cons_self ..)]
      exact ih fun r' hr' => h r' (List.mem_cons_of_mem _ hr')

/-- What is produced stays when it is substituted again. -/
theorem flatMap_eq_self_of_settled {subst : Char → List Char} {cs : List Char}
    (h : ∀ c ∈ cs, subst c = [c]) : cs.flatMap subst = cs := by
  rw [List.flatMap_congr h]
  exact List.flatMap_singleton' cs

namespace Perform

variable {rs : List Rule} {subst : Char → List Char}

/-- No rule touches what is produced. -/
theorem apply_subst (h : Perform rs subst) {r : Rule} (hr : r ∈ rs) (c : Char) :
    r.apply (subst c) = subst c := by
  refine flatMap_eq_self_of_settled fun d hd => ?_
  split
  · rename_i happlies
    rw [h.replaced r hr d happlies, h.settled c d hd]
  · rfl

/-- In turn the rules leave a character alone until one is for it.  That one does
    what the substitution says, and the rules behind it have nothing to do. -/
theorem applyAll_singleton_of_sublist (h : Perform rs subst) (c : Char) :
    ∀ {ss : List Rule}, (∀ r ∈ ss, r ∈ rs) →
      applyAll ss [c] = if ss.any fun r => r.applies c then subst c else [c] := by
  intro ss
  induction ss with
  | nil =>
      intro _
      rfl
  | cons r ss ih =>
      intro hss
      have hr : r ∈ rs := hss r (List.mem_cons_self ..)
      have htail : ∀ r' ∈ ss, r' ∈ rs := fun r' hr' => hss r' (List.mem_cons_of_mem _ hr')
      show applyAll ss (r.apply [c]) = _
      rw [r.apply_singleton, List.any_cons]
      cases happlies : r.applies c with
      | true =>
          rw [if_pos rfl, Bool.true_or, if_pos rfl, h.replaced r hr c happlies]
          exact applyAll_of_fixed fun r' hr' => h.apply_subst (htail r' hr') c
      | false =>
          rw [if_neg Bool.false_ne_true, Bool.false_or]
          exact ih htail

theorem applyAll_singleton (h : Perform rs subst) (c : Char) : applyAll rs [c] = subst c := by
  rw [h.applyAll_singleton_of_sublist c fun _ hr => hr]
  split
  · rfl
  · rename_i hnone
    refine (h.kept c fun r hr => ?_).symm
    rw [← Bool.not_eq_true]
    exact fun happlies => hnone (List.any_eq_true.mpr ⟨r, hr, happlies⟩)

/-- Rules that perform a substitution amount to it. -/
theorem applyAll_eq_flatMap (h : Perform rs subst) (cs : List Char) :
    applyAll rs cs = cs.flatMap subst := by
  induction cs with
  | nil => exact applyAll_of_fixed fun _ _ => rfl
  | cons c cs ih =>
      rw [← List.singleton_append, applyAll_append, h.applyAll_singleton, ih]
      rfl

/-- Which rules there are matters, and not their order. -/
theorem of_perm {ss : List Rule} (h : Perform rs subst) (hperm : ss.Perm rs) :
    Perform ss subst where
  replaced r hr := h.replaced r (hperm.mem_iff.mp hr)
  kept c hnone := h.kept c fun r hr => hnone r (hperm.mem_iff.mpr hr)
  settled := h.settled

end Perform

-- ── The rules for spelling ────────────────────────────────────────────────

/-- An ASCII spelling of a connective is not respelt. -/
theorem respell_ascii (k : Connective) :
    ∀ d ∈ (Glyphs.ascii.symbol k).toList, respell d = [d] := by
  have hall : (Glyphs.ascii.symbol k).toList.all (fun d => respell d = [d]) = true := by
    cases k with
    | not => decide
    | bin op => cases op <;> decide
  intro d hd
  exact of_decide_eq_true (List.all_eq_true.mp hall d hd)

/-- A character is dropped, or spells a connective in another way, or stays. -/
theorem respell_cases (c : Char) :
    respell c = [] ∨ (∃ k, respell c = (Glyphs.ascii.symbol k).toList) ∨ respell c = [c] := by
  rw [respell]
  split
  · exact .inl rfl
  · split
    · rename_i k _
      exact .inr (.inl ⟨k, rfl⟩)
    · exact .inr (.inr rfl)

theorem respell_settled (c d : Char) (hd : d ∈ respell c) : respell d = [d] := by
  rcases respell_cases c with h | ⟨k, h⟩ | h
  · rw [h] at hd
    cases hd
  · rw [h] at hd
    exact respell_ascii k d hd
  · rw [h] at hd
    obtain rfl := List.mem_singleton.mp hd
    exact h

/-- Every rule does what is to become of the characters that it is for. -/
theorem replacement_eq_respell {r : Rule} (hr : r ∈ rules) {c : Char} (hc : r.applies c = true) :
    r.replacement = respell c := by
  simp only [rules, List.mem_cons, List.not_mem_nil, or_false] at hr
  rcases hr with rfl | rfl | rfl | rfl | rfl | rfl
  · exact (if_pos hc).symm
  · obtain rfl : c = '¬' := of_decide_eq_true hc
    rfl
  · simp only [Bool.or_eq_true, decide_eq_true_eq] at hc
    rcases hc with rfl | rfl <;> rfl
  · simp only [Bool.or_eq_true, decide_eq_true_eq] at hc
    rcases hc with (rfl | rfl) | rfl <;> rfl
  · obtain rfl : c = '→' := of_decide_eq_true hc
    rfl
  · obtain rfl : c = '↔' := of_decide_eq_true hc
    rfl

/-- There is a rule for every character that does not stay. -/
theorem respell_of_no_rule (c : Char) (h : ∀ r ∈ rules, r.applies c = false) :
    respell c = [c] := by
  have hblank : Text.isBlank c = false := h _ (List.mem_cons_self ..)
  rw [respell, hblank, if_neg Bool.false_ne_true]
  split
  · rename_i k hc
    unfold Symbol.ofChar? at hc
    split at hc
    -- of the characters that spell a connective, only "~" has no rule
    case h_3 =>
      cases hc
      rfl
    case h_10 | h_11 => cases hc
    case h_12 => split at hc <;> cases hc
    all_goals
      cases hc
      exact absurd h (by decide)
  · rfl

/-- The rules for spelling perform the substitution. -/
theorem perform_respell : Perform rules respell where
  replaced _ hr _ hc := replacement_eq_respell hr hc
  kept := respell_of_no_rule
  settled := respell_settled

/-- **All rules at once.**  The normal form of a text is what comes of respelling each
    of its characters by itself.  So the rules can be applied in any order, texts
    side by side are normalised side by side, and a normal form is its own. -/
theorem normalize_eq_respelt (text : String) :
    normalize text = String.ofList (text.toList.flatMap respell) ∧
      (∀ rs : List Rule, rs.Perm rules →
        String.ofList (applyAll rs text.toList) = normalize text) ∧
      (∀ more : String, normalize (text ++ more) = normalize text ++ normalize more) ∧
      normalize (normalize text) = normalize text := by
  have hnormal : ∀ s : String, normalize s = String.ofList (s.toList.flatMap respell) :=
    fun s => congrArg String.ofList (perform_respell.applyAll_eq_flatMap s.toList)
  refine ⟨hnormal text, fun rs hperm => ?_, fun more => ?_, ?_⟩
  · rw [(perform_respell.of_perm hperm).applyAll_eq_flatMap, hnormal]
  · rw [hnormal, hnormal, hnormal, String.toList_append, List.flatMap_append,
      String.ofList_append]
  · rw [hnormal (normalize text), hnormal text, String.toList_ofList, List.flatMap_assoc]
    refine congrArg String.ofList (List.flatMap_congr fun c _ => ?_)
    exact flatMap_eq_self_of_settled (respell_settled c)

end TruthTables.Spelling
