import Fleet.Status

/-!
# Summaries and their precedence

The summary of a request is meant to follow a precedence: a failed reservation
fails the request, otherwise one that has not ended keeps it provisioning,
otherwise the last reservation decides. `Status.precedence` is that rule, which
looks at all reservations before it answers.

* **reading from the left** — `summarize` stops at the first reservation that
  decides. `summarize_eq_precedence_iff` says what that comes to: it departs
  from the precedence for a *masked* failure, one before which a reservation
  has not ended, and for nothing else;
* **order** — a verdict that something failed or goes on is the same for every
  order of the reservations exactly if not both kinds are among them.
-/

namespace Fleet.Status

variable {s last : Status} {statuses rest : List Status}

/-- Some reservation has not ended. -/
def Unfinished (statuses : List Status) : Prop := ∃ s ∈ statuses, s.isTerminal = false

instance (statuses : List Status) : Decidable (Unfinished statuses) :=
  inferInstanceAs (Decidable (∃ s ∈ statuses, s.isTerminal = false))

/-- The status of reservations by precedence: failed, then not ended, then the
last one; without reservations the given status. -/
def precedenceFrom (last : Status) (statuses : List Status) : Status :=
  if failed ∈ statuses then failed
  else if Unfinished statuses then provisioning
  else statuses.getLast?.getD last

/-- The status of a request by precedence. -/
def precedence (statuses : List Status) : Status := precedenceFrom requested statuses

/-- A reservation failed, and one before the first that did has not ended. -/
def Masked (statuses : List Status) : Prop :=
  failed ∈ statuses ∧ Unfinished (statuses.takeWhile (· ≠ failed))

instance (statuses : List Status) : Decidable (Masked statuses) :=
  inferInstanceAs (Decidable (_ ∧ _))

/-! ## One reservation more -/

theorem ne_failed_of_unfinished (h : s.isTerminal = false) : s ≠ failed := by
  rintro rfl
  cases h

theorem unfinished_cons : Unfinished (s :: rest) ↔ s.isTerminal = false ∨ Unfinished rest := by
  simp [Unfinished]

theorem masked_cons_of_unfinished (h : s.isTerminal = false) :
    Masked (s :: rest) ↔ failed ∈ rest := by
  have hne := ne_failed_of_unfinished h
  simp [Masked, unfinished_cons, h, hne, hne.symm]

theorem not_masked_cons_failed : ¬Masked (failed :: rest) := by
  simp [Masked, Unfinished]

theorem masked_cons_of_ended (h : s.isTerminal = true) (hne : s ≠ failed) :
    Masked (s :: rest) ↔ Masked rest := by
  simp [Masked, unfinished_cons, h, hne, hne.symm]

theorem precedenceFrom_cons_of_ended (h : s.isTerminal = true) (hne : s ≠ failed) :
    precedenceFrom last (s :: rest) = precedenceFrom s rest := by
  simp [precedenceFrom, unfinished_cons, List.getLast?_cons, h, hne.symm]

/-! ## Reading from the left -/

theorem summarizeFrom_eq (last : Status) (statuses : List Status) :
    summarizeFrom last statuses =
      if Masked statuses then provisioning else precedenceFrom last statuses := by
  induction statuses generalizing last with
  | nil => rfl
  | cons s rest ih =>
    rw [summarizeFrom]
    cases hs : s.isTerminal with
    | false =>
      -- the first one decides: it masks a failure, or there is none
      have hne := ne_failed_of_unfinished hs
      simp [masked_cons_of_unfinished hs, precedenceFrom, unfinished_cons, hs, hne.symm]
    | true =>
      by_cases hf : s = failed
      · subst hf
        simp [not_masked_cons_failed, precedenceFrom]
      · rw [if_neg (by simp), if_neg hf, ih]
        simp only [masked_cons_of_ended hs hf, precedenceFrom_cons_of_ended hs hf]

theorem summarize_eq (statuses : List Status) :
    summarize statuses = if Masked statuses then provisioning else precedence statuses :=
  summarizeFrom_eq requested statuses

/-! ## Verdicts -/

/-- Both tell of a failure or neither does, and so for what still goes on. -/
def SameVerdict (a b : Status) : Prop :=
  (a = failed ↔ b = failed) ∧ (a = provisioning ↔ b = provisioning)

theorem Masked.unfinished (h : Masked statuses) : Unfinished statuses := by
  obtain ⟨-, s, hs, hopen⟩ := h
  exact ⟨s, (List.takeWhile_sublist _).subset hs, hopen⟩

theorem summarize_of_mem_failed (hf : failed ∈ statuses) (hu : ¬Unfinished statuses) :
    summarize statuses = failed := by
  rw [summarize_eq, if_neg fun h => hu h.unfinished, precedence, precedenceFrom, if_pos hf]

theorem summarize_of_unfinished (hf : failed ∉ statuses) (hu : Unfinished statuses) :
    summarize statuses = provisioning := by
  rw [summarize_eq, if_neg fun h => hf h.1, precedence, precedenceFrom, if_neg hf, if_pos hu]

/-- With all reservations ended well the verdict is neither of the two. -/
theorem summarize_of_settled (hf : failed ∉ statuses) (hu : ¬Unfinished statuses) :
    summarize statuses ≠ failed ∧ summarize statuses ≠ provisioning := by
  rw [summarize_eq, if_neg fun h => hf h.1, precedence, precedenceFrom, if_neg hf, if_neg hu]
  cases hlast : statuses.getLast? with
  | none => decide
  | some s =>
    have hin : s ∈ statuses := List.mem_of_getLast? hlast
    refine ⟨fun heq => hf (heq ▸ hin), fun heq => hu ⟨s, hin, ?_⟩⟩
    obtain rfl : s = provisioning := heq
    rfl

theorem sameVerdict_of_not_both (h : ¬(failed ∈ statuses ∧ Unfinished statuses))
    {other : List Status} (hsame : ∀ s, s ∈ other ↔ s ∈ statuses) :
    SameVerdict (summarize other) (summarize statuses) := by
  have hunfinished : Unfinished other ↔ Unfinished statuses := by simp [Unfinished, hsame]
  by_cases hf : failed ∈ statuses
  · have hu : ¬Unfinished statuses := fun hu => h ⟨hf, hu⟩
    rw [summarize_of_mem_failed hf hu,
      summarize_of_mem_failed ((hsame _).mpr hf) ((not_congr hunfinished).mpr hu)]
    exact ⟨.rfl, .rfl⟩
  · have hf' : failed ∉ other := (not_congr (hsame _)).mpr hf
    by_cases hu : Unfinished statuses
    · rw [summarize_of_unfinished hf hu, summarize_of_unfinished hf' (hunfinished.mpr hu)]
      exact ⟨.rfl, .rfl⟩
    · obtain ⟨hne, hne'⟩ := summarize_of_settled hf hu
      obtain ⟨hother, hother'⟩ := summarize_of_settled hf' ((not_congr hunfinished).mpr hu)
      exact ⟨iff_of_false hother hne, iff_of_false hother' hne'⟩

/-- The first reservation is read first. -/
theorem summarize_failed_cons : summarize (failed :: rest) = failed := rfl

theorem summarize_cons_of_unfinished (h : s.isTerminal = false) :
    summarize (s :: rest) = provisioning := by
  simp [summarize, summarizeFrom, h]

/-- The summary follows the precedence exactly if no failure is masked; a masked
one is told of as still provisioning. The verdicts failed and provisioning are
the same for every order of the reservations exactly if not both a failed one
and one that has not ended are among them. -/
theorem summarize_eq_precedence_iff (statuses : List Status) :
    (summarize statuses = precedence statuses ↔ ¬Masked statuses) ∧
    (summarize statuses = if Masked statuses then provisioning else precedence statuses) ∧
    ((∀ other : List Status, other.Perm statuses →
        SameVerdict (summarize other) (summarize statuses)) ↔
      ¬(failed ∈ statuses ∧ Unfinished statuses)) := by
  refine ⟨⟨fun heq hmasked => ?_, fun hmasked => ?_⟩, summarize_eq statuses, fun hsame hboth => ?_,
    fun h other hperm => ?_⟩
  · have hfailed : precedence statuses = failed := by
      rw [precedence, precedenceFrom, if_pos hmasked.1]
    rw [summarize_eq, if_pos hmasked, hfailed] at heq
    cases heq
  · rw [summarize_eq, if_neg hmasked]
  · -- one order begins with the failed one, another with the one that has not ended
    obtain ⟨hf, s, hs, hopen⟩ := hboth
    have hfirst := (hsame _ (List.perm_cons_erase hf).symm).1.mp summarize_failed_cons
    have hsecond := (hsame _ (List.perm_cons_erase hs).symm).2.mp
      (summarize_cons_of_unfinished hopen)
    rw [hfirst] at hsecond
    cases hsecond
  · exact sameVerdict_of_not_both h fun s => hperm.mem_iff

/-- Two reservations, one of which failed: the verdict depends on which of the
two stands first. -/
theorem failure_masked :
    precedence [provisioning, failed] = failed ∧
    summarize [provisioning, failed] = provisioning ∧
    summarize [failed, provisioning] = failed := by
  decide

end Fleet.Status
