import Mathlib.Data.List.TakeWhile
import TruthTables.Text.Blank

/-!
# Cutting — what is left of a text between blanks and between separators

    Trimming takes away two ends of a text and nothing else: what stands between
    them stays if its first and its last character are to be kept
    (`trimBoth_append`).  So a text is what trimming leaves as soon as it stands
    between blanks and neither begins nor ends with one.

    A text that was put together with a separator is cut at that separator into
    the same parts, if the separator has a mark that stands in none of the parts
    (`split_intercalate`).  The mark need not stand first in the separator; but a
    separator that begins inside a part would have its mark there too.
-/

namespace TruthTables.Text

variable {p : Char → Bool} {front mid back cs : List Char}

-- ── Blanks at both ends ───────────────────────────────────────────────────

/-- Nothing is left of a text exactly when it is blank throughout. -/
theorem strip_eq_nil_iff : strip cs = [] ↔ ∀ c ∈ cs, isBlank c = true := by
  rw [strip, trimBoth, List.reverse_eq_nil_iff, List.dropWhile_eq_nil_iff]
  constructor
  · intro h
    refine List.dropWhile_eq_nil_iff.mp (Classical.byContradiction fun hne => ?_)
    -- the first character that is kept in front is not blank
    have hhead := List.head_dropWhile_not isBlank hne
    rw [h _ (List.mem_reverse.mpr (List.head_mem hne))] at hhead
    cases hhead
  · intro h c hc
    exact h c ((List.dropWhile_sublist isBlank).subset (List.mem_reverse.mp hc))

theorem unifyLineEnds_blank_iff :
    (∀ c ∈ unifyLineEnds cs, isBlank c = true) ↔ ∀ c ∈ cs, isBlank c = true := by
  have hreturn : isBlank '\r' = true := by decide
  have hfeed : isBlank '\n' = true := by decide
  fun_induction unifyLineEnds cs with
  | case1 => rfl
  | case2 cs ih => simp [ih, hreturn, hfeed]
  | case3 cs _ ih => simp [ih, hreturn, hfeed]
  | case4 c cs _ _ ih => simp [ih]

theorem dropWhile_append_of_head (hfront : ∀ c ∈ front, p c = true) (hmid : mid ≠ [])
    (hhead : ∀ c, mid.head? = some c → p c = false) : (front ++ mid).dropWhile p = mid := by
  obtain ⟨c, cs, rfl⟩ := List.exists_cons_of_ne_nil hmid
  rw [List.dropWhile_append_of_pos hfront, List.dropWhile_cons_of_neg]
  rw [hhead c rfl]
  exact Bool.false_ne_true

/-- Trimming takes away what stands in front of the first character that is kept, and
    behind the last one. -/
theorem trimBoth_append (hfront : ∀ c ∈ front, p c = true) (hback : ∀ c ∈ back, p c = true)
    (hmid : mid ≠ []) (hhead : ∀ c, mid.head? = some c → p c = false)
    (hlast : ∀ c, mid.getLast? = some c → p c = false) :
    trimBoth p (front ++ mid ++ back) = mid := by
  have hdrop : (front ++ (mid ++ back)).dropWhile p = mid ++ back := by
    refine dropWhile_append_of_head hfront (by simp [hmid]) fun c hc => hhead c ?_
    obtain ⟨c', cs, rfl⟩ := List.exists_cons_of_ne_nil hmid
    exact hc
  have hreverse : (back.reverse ++ mid.reverse).dropWhile p = mid.reverse := by
    refine dropWhile_append_of_head (fun c hc => hback c (List.mem_reverse.mp hc))
      (by simp [hmid]) fun c hc => hlast c ?_
    rwa [List.head?_reverse] at hc
  rw [trimBoth, List.append_assoc, hdrop, List.reverse_append, hreverse, List.reverse_reverse]

-- ── Separators ────────────────────────────────────────────────────────────

/-- The parts of a text between the places where a separator stands, when the next
    `passed` characters still belong to one. -/
def partsAfter (sep : List Char) : Nat → List Char → List (List Char)
  | _, [] => [[]]
  | passed + 1, _ :: cs => partsAfter sep passed cs
  | 0, c :: cs =>
      if sep.isPrefixOf (c :: cs) then [] :: partsAfter sep (sep.length - 1) cs
      else (partsAfter sep 0 cs).modifyHead (c :: ·)

/-- The parts of a text between the places where a separator stands.  The places are
    found from left to right and do not overlap. -/
def split (sep text : String) : List String :=
  (partsAfter sep.toList 0 text.toList).map String.ofList

section

variable {sep ahead behind : List Char} {mark : Char}

theorem partsAfter_length (sep passed rest : List Char) :
    partsAfter sep passed.length (passed ++ rest) = partsAfter sep 0 rest := by
  induction passed with
  | nil => rfl
  | cons c passed ih => exact ih

/-- A separator stands nowhere in a text without its mark. -/
theorem partsAfter_of_not_mem (hmark : mark ∈ sep) (h : mark ∉ cs) :
    partsAfter sep 0 cs = [cs] := by
  induction cs with
  | nil => rfl
  | cons c cs ih =>
      have hno : ¬ sep.isPrefixOf (c :: cs) = true := by
        rw [List.isPrefixOf_iff_prefix]
        exact fun hpre => h (hpre.subset hmark)
      rw [partsAfter, if_neg hno, ih (List.not_mem_of_not_mem_cons h)]
      rfl

/-- A separator does not begin before its place, for its mark would be too near. -/
theorem not_prefix_of_mark (hahead : mark ∉ ahead) {c : Char} (h : mark ∉ c :: cs)
    (rest : List Char) :
    ¬ ahead ++ mark :: behind <+: c :: cs ++ (ahead ++ mark :: behind ++ rest) := by
  rintro ⟨later, heq⟩
  have hfree : ∀ {xs : List Char}, mark ∉ xs → ∀ x ∈ xs, (x != mark) = true := by
    intro xs hxs x hx
    rw [bne_iff_ne]
    rintro rfl
    exact hxs hx
  -- compare what stands in front of the first mark on either side
  have hfirst := congrArg (List.takeWhile (· != mark)) heq
  rw [List.append_assoc, List.takeWhile_append_of_pos (hfree hahead), List.append_assoc,
    List.takeWhile_append_of_pos (hfree h), List.takeWhile_append_of_pos (hfree hahead)] at hfirst
  have hlength := congrArg List.length hfirst
  simp only [List.cons_append, List.length_append, List.length_cons, List.takeWhile_cons,
    bne_self_eq_false, Bool.false_eq_true, if_false, List.length_nil] at hlength
  omega

/-- A part without the mark ends where the separator begins. -/
theorem partsAfter_append (hsep : sep = ahead ++ mark :: behind) (hahead : mark ∉ ahead)
    (h : mark ∉ cs) (rest : List Char) :
    partsAfter sep 0 (cs ++ (sep ++ rest)) = cs :: partsAfter sep 0 rest := by
  induction cs with
  | nil =>
      obtain ⟨c, passed, rfl⟩ : ∃ c passed, sep = c :: passed :=
        List.exists_cons_of_ne_nil (by simp [hsep])
      have hhere : (c :: passed).isPrefixOf (c :: (passed ++ rest)) = true :=
        List.isPrefixOf_iff_prefix.mpr (List.prefix_append ..)
      rw [List.nil_append, List.cons_append, partsAfter, if_pos hhere]
      exact congrArg ([] :: ·) (partsAfter_length _ passed rest)
  | cons c cs ih =>
      have hno : ¬ sep.isPrefixOf (c :: cs ++ (sep ++ rest)) = true := by
        rw [List.isPrefixOf_iff_prefix, hsep]
        exact not_prefix_of_mark hahead h rest
      rw [List.cons_append] at hno ⊢
      rw [partsAfter, if_neg hno, ih (List.not_mem_of_not_mem_cons h)]
      rfl

end

/-- **Cutting undoes joining**, for a separator with a mark that stands in no part. -/
theorem split_intercalate {sep : String} {ahead behind : List Char} {mark : Char}
    (hsep : sep.toList = ahead ++ mark :: behind) (hahead : mark ∉ ahead) :
    ∀ {parts : List String}, parts ≠ [] → (∀ part ∈ parts, mark ∉ part.toList) →
      split sep (sep.intercalate parts) = parts
  | [], hne, _ => absurd rfl hne
  | [part], _, h => by
      have hmark : mark ∈ sep.toList := by simp [hsep]
      rw [split, String.intercalate_singleton,
        partsAfter_of_not_mem hmark (h part (List.mem_singleton.mpr rfl)), List.map_singleton,
        String.ofList_toList]
  | part :: next :: parts, _, h => by
      have hrest := split_intercalate hsep hahead (List.cons_ne_nil next parts)
        fun x hx => h x (List.mem_cons_of_mem _ hx)
      rw [split] at hrest ⊢
      rw [String.intercalate_cons_cons, String.toList_append, String.toList_append,
        List.append_assoc, partsAfter_append hsep hahead (h part (List.mem_cons_self ..)),
        List.map_cons, hrest, String.ofList_toList]

/-- Blanks that are no part of a separator stay with the parts beside it. -/
example : split " | " "T |  F  | T" = ["T", " F ", "T"] := by decide

end TruthTables.Text
