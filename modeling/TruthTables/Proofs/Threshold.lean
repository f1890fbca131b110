import TruthTables.Journal.Office

/-!
# Threshold — one outlet and one threshold, however many clerks

    Clerks share journals, and what sets a level comes in three forms: a clerk
    is engaged, a clerk changes the level, or the common clerk does.  Two
    thresholds decide about a record, that of the journal and that of its
    outlet, and outlets might pile up.

    They do not, and the two never differ.  Whoever is engaged finds a journal
    opened just now, with one outlet (`Journal.tunedTo_reopen`), and a change of
    level reaches the journal and its outlet (`Journal.TunedTo.setLevel`).  So a
    journal that is kept has one outlet, and the level that was set for it last
    is the threshold of both: `Tuned`, which every action preserves
    (`Tuned.after`).

    **Main result** (`one_outlet_one_threshold`).  This for every sequence of
    actions, with the records that it writes.
-/

namespace TruthTables

-- ── What was set last, and what is to be written ──────────────────────────

/-- The level that was set last for a journal, if one was. -/
def lastLevel? (name : String) (past : List (String × Level)) : Option Level :=
  past.reverse.lookup name

theorem lastLevel?_concat (n name : String) (level : Level) (past : List (String × Level)) :
    lastLevel? n (past ++ [(name, level)]) =
      if n = name then some level else lastLevel? n past := by
  rw [lastLevel?, List.reverse_append]
  show List.lookup n ((name, level) :: past.reverse) = _
  rw [List.lookup_cons]
  by_cases h : n = name
  · simp [h]
  · simp only [beq_eq_false_iff_ne.mpr h, if_neg h]
    rfl

/-- Where all levels are for one journal, the last of them was set last for it. -/
theorem lastLevel?_eq_getLast? {name : String} {past : List (String × Level)}
    (h : ∀ x ∈ past, x.1 = name) : lastLevel? name past = past.getLast?.map Prod.snd := by
  rcases List.eq_nil_or_concat past with rfl | ⟨before, ⟨n, level⟩, rfl⟩
  · rfl
  · rw [List.concat_eq_append] at h ⊢
    obtain rfl : n = name := h (n, level) (List.mem_append.mpr (.inr (List.mem_singleton.mpr rfl)))
    rw [lastLevel?_concat, if_pos rfl, List.getLast?_concat]
    rfl

/-- A record that was handed to a clerk, with the level that had been set last for the
    journal of the clerk. -/
structure Call where
  threshold : Option Level
  record : Record

/-- Whether the record reaches the level. -/
def Call.isHeard (c : Call) : Bool := c.threshold.any fun level => c.record.level.reaches level

namespace Staff

/-- The journal that is opened for the common clerk, if there is none yet. -/
def opening (s : Staff) (name : String) : List (String × Level) :=
  match s.common with
  | some _ => []
  | none => [(journalOf name, .info)]

/-- The levels that an action sets, each for its journal. -/
def settings (s : Staff) : OfficeAction → List (String × Level)
  | .ask name => s.opening name
  | .engage name level => [(journalOf name, level)]
  | .setLevel clerk level => (s.clerks[clerk]?).toList.map (·, level)
  | .setCommonLevel level => s.opening commonName ++ [(s.commonJournal commonName, level)]
  | .write .. => []

/-- The levels that actions set, in order. -/
def history (s : Staff) : List OfficeAction → List (String × Level)
  | [] => []
  | a :: as => s.settings a ++ (s.after a).history as

/-- The record that an action hands to a clerk, when the levels of the past have been set
    before. -/
def call? (s : Staff) (past : List (String × Level)) : OfficeAction → Option Call
  | .write clerk r => s.clerks[clerk]?.map fun name => ⟨lastLevel? name past, r⟩
  | _ => none

/-- The records that actions hand to clerks, in order. -/
def calls (s : Staff) (past : List (String × Level)) : List OfficeAction → List Call
  | [] => []
  | a :: as => (s.call? past a).toList ++ (s.after a).calls (past ++ s.settings a) as

/-- What actions come to for the journals, in order. -/
def deeds (s : Staff) : List OfficeAction → List (String × JournalAction)
  | [] => []
  | a :: as => (s.deed? a).toList ++ (s.after a).deeds as

theorem ask_common (s : Staff) (name : String) :
    (s.ask name).common = some (s.commonJournal name) := by
  rw [ask, commonJournal]
  cases h : s.common with
  | none => rfl
  | some n => exact h

/-- Nobody leaves. -/
theorem clerks_subset (s : Staff) (a : OfficeAction) : s.clerks ⊆ (s.after a).clerks := by
  have hask : ∀ name, s.clerks ⊆ (s.ask name).clerks := by
    intro name
    rw [ask]
    cases s.common with
    | none => exact List.subset_append_left _ _
    | some n => exact List.Subset.refl _
  cases a with
  | ask name => exact hask name
  | engage name level => exact List.subset_append_left _ _
  | setCommonLevel level => exact hask commonName
  | setLevel clerk level => exact List.Subset.refl _
  | write clerk r => exact List.Subset.refl _

/-- What an action comes to is for a journal that is kept from then on. -/
theorem deed?_mem_clerks {s : Staff} (hs : ∀ name, s.common = some name → name ∈ s.clerks)
    {a : OfficeAction} {deed : String × JournalAction} (h : s.deed? a = some deed) :
    deed.1 ∈ (s.after a).clerks := by
  have hask : ∀ name, s.commonJournal name ∈ (s.ask name).clerks := by
    intro name
    rw [ask, commonJournal]
    cases hc : s.common with
    | none => exact List.mem_append.mpr (.inr (List.mem_singleton.mpr rfl))
    | some n => exact hs n hc
  cases a with
  | ask name => cases h; exact hask name
  | engage name level => cases h; exact List.mem_append.mpr (.inr (List.mem_singleton.mpr rfl))
  | setCommonLevel level => cases h; exact hask commonName
  | setLevel clerk level =>
      obtain ⟨name, hname, rfl⟩ := Option.map_eq_some_iff.mp h
      exact List.mem_of_getElem? hname
  | write clerk r =>
      obtain ⟨name, hname, rfl⟩ := Option.map_eq_some_iff.mp h
      exact List.mem_of_getElem? hname

/-- A level is set by what the action comes to, for the same journal. -/
theorem deed?_of_mem_settings {s : Staff} {a : OfficeAction} {x : String × Level}
    (h : x ∈ s.settings a) : ∃ deed, s.deed? a = some (x.1, deed) := by
  have hopening : ∀ name, x ∈ s.opening name → s.commonJournal name = x.1 := by
    intro name hx
    rw [opening] at hx
    rw [commonJournal]
    cases hc : s.common with
    | none =>
        rw [hc] at hx
        rw [List.mem_singleton.mp hx]
        rfl
    | some n =>
        rw [hc] at hx
        cases hx
  cases a with
  | ask name => exact ⟨_, congrArg (fun n => some (n, _)) (hopening name h)⟩
  | engage name level =>
      rw [List.mem_singleton.mp h]
      exact ⟨_, rfl⟩
  | setCommonLevel level =>
      obtain hx | hx := List.mem_append.mp h
      · exact ⟨_, congrArg (fun n => some (n, _)) (hopening commonName hx)⟩
      · rw [List.mem_singleton.mp hx]
        exact ⟨_, rfl⟩
  | setLevel clerk level =>
      rw [settings, List.mem_map] at h
      obtain ⟨name, hname, rfl⟩ := h
      rw [deed?, Option.mem_toList.mp hname]
      exact ⟨_, rfl⟩
  | write clerk r => cases h

end Staff

-- ── Journals with one outlet ──────────────────────────────────────────────

namespace Journal

variable {j : Journal} {level : Level}

/-- The journal has one outlet, and both have this level for their threshold. -/
structure TunedTo (j : Journal) (level : Level) : Prop where
  threshold : j.threshold = level
  outlets : j.outlets = [level]

theorem tunedTo_reopen (j : Journal) (level : Level) : (j.reopen level).TunedTo level := ⟨rfl, rfl⟩

theorem TunedTo.setLevel {old : Level} (h : j.TunedTo old) (level : Level) :
    (j.setLevel level).TunedTo level := by
  refine ⟨rfl, ?_⟩
  show j.outlets.map (fun _ => level) = [level]
  rw [h.outlets]
  rfl

/-- A journal with one threshold writes a record that reaches it once, and any other
    not at all. -/
theorem TunedTo.copies_eq (h : j.TunedTo level) (r : Record) :
    j.copies r = if r.level.reaches level then [r] else [] := by
  rw [copies, h.threshold, h.outlets]
  by_cases hr : r.level.reaches level = true
  · simp [hr]
  · simp [hr]

end Journal

namespace Office

/-- The office as it is when these levels have been set: for every journal that is kept
    there is a last one, and the journal is tuned to it.  The common clerk is a clerk,
    and the journal of this clerk is the one that knows of it. -/
structure Tuned (o : Office) (past : List (String × Level)) : Prop where
  kept : ∀ name ∈ o.staff.clerks,
    ∃ level, lastLevel? name past = some level ∧ (o.journals name).TunedTo level
  common : ∀ name, o.staff.common = some name → name ∈ o.staff.clerks
  obtained : ∀ name, (o.journals name).obtained = true ↔ o.staff.common = some name

theorem tuned_fresh : fresh.Tuned [] where
  kept _ h := nomatch h
  common _ h := nomatch h
  obtained _ := ⟨nofun, nofun⟩

variable {o : Office} {past : List (String × Level)}

theorem change_journals_self (o : Office) (name : String) (f : Journal → Journal) :
    (o.change name f).journals name = f (o.journals name) := if_pos rfl

theorem change_journals_of_ne (o : Office) {name n : String} (f : Journal → Journal)
    (h : n ≠ name) : (o.change name f).journals n = o.journals n := if_neg h

theorem change_change (o : Office) (name : String) (f g : Journal → Journal) :
    (o.change name f).change name g = o.change name fun j => g (f j) := by
  refine congrArg (Office.mk o.staff) (funext fun n => ?_)
  show (if n = name then g (if n = name then f (o.journals n) else o.journals n)
      else if n = name then f (o.journals n) else o.journals n) =
    if n = name then g (f (o.journals n)) else o.journals n
  split <;> rfl

/-- A change that does not touch upon the common clerk. -/
theorem change_obtained (o : Office) (name : String) {f : Journal → Journal}
    (hf : ∀ j, (f j).obtained = j.obtained) (n : String) :
    ((o.change name f).journals n).obtained = (o.journals n).obtained := by
  show (if n = name then f (o.journals n) else o.journals n).obtained = _
  split
  · exact hf _
  · rfl

/-- A level is set for one journal, and perhaps a clerk is engaged for it.  Then the
    journals that are kept are tuned to what was set for them last. -/
theorem Tuned.kept_change (h : o.Tuned past) {name : String} {level : Level}
    {f : Journal → Journal} (hf : (f (o.journals name)).TunedTo level) {n : String}
    (hn : n ∈ o.staff.clerks ++ [name]) :
    ∃ l, lastLevel? n (past ++ [(name, level)]) = some l ∧
      ((o.change name f).journals n).TunedTo l := by
  rw [lastLevel?_concat]
  by_cases hname : n = name
  · subst hname
    rw [if_pos rfl, change_journals_self]
    exact ⟨level, rfl, hf⟩
  · rw [if_neg hname, change_journals_of_ne o f hname]
    exact h.kept n ((List.mem_append.mp hn).resolve_right fun h => hname (List.mem_singleton.mp h))

/-- A clerk changes the level of the journal. -/
theorem Tuned.setLevel (h : o.Tuned past) {name : String} (hname : name ∈ o.staff.clerks)
    (level : Level) :
    (o.change name fun j => j.setLevel level).Tuned (past ++ [(name, level)]) where
  kept n hn := by
    obtain ⟨old, -, htuned⟩ := h.kept name hname
    exact h.kept_change (htuned.setLevel level) (List.mem_append_left _ hn)
  common := h.common
  obtained n := by
    rw [change_obtained (f := fun j => j.setLevel level) o name fun _ => rfl]
    exact h.obtained n

/-- Another clerk is engaged. -/
theorem Tuned.engage (h : o.Tuned past) (name : String) (level : Level) :
    (o.after (.engage name level)).Tuned (past ++ [(Staff.journalOf name, level)]) where
  kept n hn := h.kept_change (f := fun j => j.reopen level) (Journal.tunedTo_reopen _ level) hn
  common n hn := List.mem_append_left _ (h.common n hn)
  obtained n := by
    have hsame : ((o.after (.engage name level)).journals n).obtained = (o.journals n).obtained :=
      change_obtained (f := fun j => j.reopen level) o _ (fun _ => rfl) n
    rw [hsame]
    exact h.obtained n

/-- Asking for a common clerk who is there changes nothing. -/
theorem Tuned.after_ask_of_common (h : o.Tuned past) {n : String} (hn : o.staff.common = some n)
    (name : String) : o.after (.ask name) = o := by
  have hstaff : o.staff.after (.ask name) = o.staff := by
    rw [Staff.after, Staff.ask, hn]
  have hjournals : ∀ m, (if m = n then (o.journals m).obtain else o.journals m) = o.journals m := by
    intro m
    split
    · rename_i hm
      rw [Journal.obtain, if_pos ((h.obtained m).mpr (hm ▸ hn))]
    · rfl
  rw [after, Staff.deed?, Staff.commonJournal, hn, hstaff]
  exact congrArg (Office.mk o.staff) (funext hjournals)

/-- While there is no common clerk, every journal that one is asked for gets opened. -/
theorem Tuned.obtain_eq (h : o.Tuned past) (hc : o.staff.common = none) (name : String) :
    (o.journals name).obtain = { (o.journals name).reopen .info with obtained := true } := by
  refine if_neg fun hobtained => ?_
  rw [h.obtained, hc] at hobtained
  cases hobtained

/-- The common clerk is asked for, and engaged if there is none. -/
theorem Tuned.ask (h : o.Tuned past) (name : String) :
    (o.after (.ask name)).Tuned (past ++ o.staff.opening name) := by
  cases hc : o.staff.common with
  | some n =>
      rw [h.after_ask_of_common hc, Staff.opening, hc, List.append_nil]
      exact h
  | none =>
      have hobtain := h.obtain_eq hc (Staff.journalOf name)
      have hafter : o.after (.ask name) =
          { o.change (Staff.journalOf name) Journal.obtain with
            staff := ⟨o.staff.clerks ++ [Staff.journalOf name], some (Staff.journalOf name)⟩ } := by
        rw [after, Staff.deed?, Staff.commonJournal, Staff.after, Staff.ask, hc]
        rfl
      rw [hafter, Staff.opening, hc]
      refine ⟨fun n hn => ?_, fun n hn => ?_, fun n => ?_⟩
      · exact h.kept_change (f := Journal.obtain) (hobtain ▸ ⟨rfl, rfl⟩) hn
      · exact List.mem_append.mpr (.inr (List.mem_singleton.mpr (Option.some.inj hn).symm))
      · show ((o.change (Staff.journalOf name) Journal.obtain).journals n).obtained = true ↔
          some (Staff.journalOf name) = some n
        by_cases hname : n = Staff.journalOf name
        · subst hname
          rw [change_journals_self, hobtain]
          exact ⟨fun _ => rfl, fun _ => rfl⟩
        · rw [change_journals_of_ne o _ hname, h.obtained, hc]
          exact ⟨nofun, fun h => absurd (Option.some.inj h).symm hname⟩

/-- Setting the common level is asking for the common clerk, who then changes the level. -/
theorem after_setCommonLevel (o : Office) (level : Level) :
    o.after (.setCommonLevel level) =
      (o.after (.ask Staff.commonName)).change (o.staff.commonJournal Staff.commonName)
        fun j => j.setLevel level :=
  (change_change { o with staff := o.staff.ask Staff.commonName }
    (o.staff.commonJournal Staff.commonName) Journal.obtain fun j => j.setLevel level).symm

/-- A record changes no journal. -/
theorem after_write (o : Office) (clerk : Nat) (r : Record) : o.after (.write clerk r) = o := by
  rw [after, Staff.deed?]
  cases o.staff.clerks[clerk]? with
  | none => rfl
  | some name => exact congrArg (Office.mk o.staff) (funext fun n => ite_self _)

/-- **Every action preserves it.** -/
theorem Tuned.after (h : o.Tuned past) (a : OfficeAction) :
    (o.after a).Tuned (past ++ o.staff.settings a) := by
  cases a with
  | ask name => exact h.ask name
  | engage name level => exact h.engage name level
  | setLevel clerk level =>
      cases hc : o.staff.clerks[clerk]? with
      | none =>
          rw [Office.after, Staff.deed?, Staff.settings, hc]
          exact (List.append_nil past).symm ▸ h
      | some name =>
          rw [Office.after, Staff.deed?, Staff.settings, hc]
          exact h.setLevel (List.mem_of_getElem? hc) level
  | setCommonLevel level =>
      rw [after_setCommonLevel, Staff.settings, ← List.append_assoc]
      have hask := h.ask Staff.commonName
      exact hask.setLevel (hask.common _ (o.staff.ask_common Staff.commonName)) level
  | write clerk r =>
      rw [after_write]
      exact (List.append_nil past).symm ▸ h

/-- A record is handed in at a threshold, and written once if it is heard. -/
theorem Tuned.written_eq (h : o.Tuned past) (a : OfficeAction) :
    o.written a = ((o.staff.call? past a).toList.filter Call.isHeard).map Call.record ∧
      ∀ call ∈ (o.staff.call? past a).toList, call.threshold.isSome := by
  cases a with
  | write clerk r =>
      rw [written, Staff.deed?, Staff.call?]
      cases hc : o.staff.clerks[clerk]? with
      | none => exact ⟨rfl, nofun⟩
      | some name =>
          obtain ⟨level, hlast, htuned⟩ := h.kept name (List.mem_of_getElem? hc)
          simp only [Option.map_some, Option.toList_some, List.mem_singleton, forall_eq, hlast]
          refine ⟨(htuned.copies_eq r).trans ?_, rfl⟩
          by_cases hr : r.level.reaches level = true
          · simp [Call.isHeard, hr]
          · simp [Call.isHeard, hr]
  | ask name => exact ⟨rfl, nofun⟩
  | engage name level => exact ⟨rfl, nofun⟩
  | setCommonLevel level => exact ⟨rfl, nofun⟩
  | setLevel clerk level =>
      refine ⟨?_, nofun⟩
      rw [written, Staff.deed?]
      cases o.staff.clerks[clerk]? with
      | none => rfl
      | some name => rfl

/-- By induction on the actions: the office stays tuned, and writes what is heard. -/
theorem Tuned.run (h : o.Tuned past) (actions : List OfficeAction) :
    (o.run actions).1.Tuned (past ++ o.staff.history actions) ∧
      (o.run actions).2 = ((o.staff.calls past actions).filter Call.isHeard).map Call.record ∧
      ∀ call ∈ o.staff.calls past actions, call.threshold.isSome := by
  induction actions generalizing o past with
  | nil => exact ⟨(List.append_nil past).symm ▸ h, rfl, nofun⟩
  | cons a as ih =>
      obtain ⟨hwritten, hcall⟩ := h.written_eq a
      obtain ⟨htuned, hlater, hcalls⟩ := ih (h.after a)
      refine ⟨?_, ?_, fun call hmem => ?_⟩
      · rw [Staff.history, ← List.append_assoc]
        exact htuned
      · rw [Staff.calls, List.filter_append, List.map_append, ← hwritten]
        exact congrArg (o.written a ++ ·) hlater
      · exact (List.mem_append.mp hmem).elim (hcall call) (hcalls call)

-- ── A journal that all clerks share ───────────────────────────────────────

theorem clerks_subset_run (o : Office) (actions : List OfficeAction) :
    o.staff.clerks ⊆ (o.run actions).1.staff.clerks := by
  induction actions generalizing o with
  | nil => exact List.Subset.refl _
  | cons a as ih => exact List.Subset.trans (o.staff.clerks_subset a) (ih (o.after a))

/-- If there is one journal that all clerks keep, then all that is done is done to it. -/
theorem Tuned.run_shared (h : o.Tuned past) (actions : List OfficeAction) {name : String}
    (hname : ∀ n ∈ (o.run actions).1.staff.clerks, n = name) :
    (∀ x ∈ o.staff.history actions, x.1 = name) ∧
      (o.journals name).run ((o.staff.deeds actions).map Prod.snd) =
        ((o.run actions).1.journals name, (o.run actions).2) := by
  induction actions generalizing o past with
  | nil => exact ⟨nofun, rfl⟩
  | cons a as ih =>
      obtain ⟨hhistory, hrun⟩ := ih (h.after a) hname
      have hdeed : ∀ deed, o.staff.deed? a = some deed → deed.1 = name := fun deed hd =>
        hname _ (clerks_subset_run (o.after a) as (Staff.deed?_mem_clerks h.common hd))
      refine ⟨fun x hx => ?_, ?_⟩
      · obtain hx | hx := List.mem_append.mp hx
        · obtain ⟨deed, hd⟩ := Staff.deed?_of_mem_settings hx
          exact hdeed _ hd
        · exact hhistory x hx
      · show (o.journals name).run (((o.staff.deed? a).toList ++ (o.staff.after a).deeds as).map
            Prod.snd) = (((o.after a).run as).1.journals name,
              o.written a ++ ((o.after a).run as).2)
        cases hd : o.staff.deed? a with
        | none =>
            have hafter : (o.after a).journals name = o.journals name := by rw [Office.after, hd]
            have hwritten : o.written a = [] := by rw [written, hd]
            rw [hafter] at hrun
            rw [hwritten]
            exact hrun
        | some deed =>
            obtain ⟨n, deed⟩ := deed
            obtain rfl : n = name := hdeed _ hd
            have hafter : (o.after a).journals n = (o.journals n).after deed := by
              rw [Office.after, hd]
              exact change_journals_self o n fun j => j.after deed
            have hwritten : o.written a = (o.journals n).written deed := by rw [written, hd]
            rw [hafter] at hrun
            show Journal.run (o.journals n) (deed :: ((o.staff.after a).deeds as).map Prod.snd) = _
            rw [Journal.run, hwritten]
            exact congrArg (fun p => (p.1, (o.journals n).written deed ++ p.2)) hrun

/-- **One outlet, one threshold.**  After any actions, a journal that is kept has one outlet,
    and the level that was set for it last is the threshold of both.  So a record that is
    handed to a clerk is written once if it reaches the level that had been set last for the
    journal of the clerk, and not at all otherwise, and what is written is in order.

    If all clerks share a journal, the level that was set last for it is the last level that
    was set, and what is written is what this journal writes by itself. -/
theorem one_outlet_one_threshold (actions : List OfficeAction) :
    let last := (fresh.run actions).1
    let past := Staff.nobody.history actions
    let calls := Staff.nobody.calls [] actions
    (∀ name ∈ last.staff.clerks, ∃ level, lastLevel? name past = some level ∧
      (last.journals name).threshold = level ∧ (last.journals name).outlets = [level]) ∧
    (∀ call ∈ calls, call.threshold.isSome) ∧
    (fresh.run actions).2 = (calls.filter Call.isHeard).map Call.record ∧
    ∀ name, (∀ n ∈ last.staff.clerks, n = name) →
      lastLevel? name past = past.getLast?.map Prod.snd ∧
      Journal.unopened.run ((Staff.nobody.deeds actions).map Prod.snd) =
        (last.journals name, (fresh.run actions).2) := by
  obtain ⟨htuned, hwritten, hcalls⟩ := tuned_fresh.run actions
  refine ⟨fun name hname => ?_, hcalls, hwritten, fun name hname => ?_⟩
  · obtain ⟨level, hlast, hlevel⟩ := htuned.kept name hname
    exact ⟨level, hlast, hlevel.threshold, hlevel.outlets⟩
  · obtain ⟨hhistory, hrun⟩ := tuned_fresh.run_shared actions hname
    exact ⟨lastLevel?_eq_getLast? hhistory, hrun⟩

/-- Two clerks share a journal, and the common one of them is the older: the newer brings the
    threshold up, the older brings it down again, each for both. -/
def oldAndNew : List OfficeAction :=
  [.ask "tabula", .setLevel 0 .debug, .engage "tabula" .error, .write 0 ⟨.info, "lost"⟩,
    .setCommonLevel .info, .write 1 ⟨.info, "kept"⟩]

theorem one_outlet_one_threshold_old_and_new :
    (∀ n ∈ (fresh.run oldAndNew).1.staff.clerks, n = "tabula") ∧
    ((fresh.run oldAndNew).1.journals "tabula").outlets = [.info] ∧
    (fresh.run oldAndNew).2 = [⟨.info, "kept"⟩] ∧
    lastLevel? "tabula" (Staff.nobody.history oldAndNew) = some .info := by
  obtain ⟨hkept, -, hwritten, hshared⟩ := one_outlet_one_threshold oldAndNew
  have hname : ∀ n ∈ (fresh.run oldAndNew).1.staff.clerks, n = "tabula" := by decide
  have hlast := (hshared "tabula" hname).1
  obtain ⟨level, hlevel, -, houtlets⟩ := hkept "tabula" (by decide)
  refine ⟨hname, ?_, hwritten.trans (by decide), hlast.trans (by decide)⟩
  obtain rfl : level = .info := Option.some.inj (hlevel.symm.trans (hlast.trans (by decide)))
  exact houtlets

-- Journals of different names are apart.  Here the common journal is not the one named
-- `tabula`, which keeps its threshold when the common level is changed.
example : (fresh.run [.ask "other", .engage Staff.commonName .error, .setCommonLevel .debug,
    .write 0 ⟨.debug, "other"⟩, .write 1 ⟨.info, "tabula"⟩]).2 = [⟨.debug, "other"⟩] := by
  decide

end Office

end TruthTables
