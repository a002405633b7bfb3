import TrustFramework.Proofs.Trace.Visits
import TrustFramework.Proofs.Union

/-!
# What a statebag holds

The entries of the statebag last for a step: they are the union of what was found since the last
step was opened.  Claims last for the trace: they are the union of all that was found.  A step is
filed with both as they are when it is closed.

## Main definitions

* `sinceOpening` — the findings since the last step was opened.

## Main results

* `isUnion_entries`, `isUnion_claims` — a statebag after findings.
* `Rebuilding.statebag_of_steps` — **the statebags that steps are filed with, and the last one.**
-/

namespace TrustFramework

open Fields

/-- The findings since the last that opened a step, or all if there is no such. -/
def sinceOpening (fs : List Findings) : List Findings :=
  fs.foldl (fun since f => if f.createStep then [f] else since ++ [f]) []

theorem sinceOpening_append_singleton (fs : List Findings) (f : Findings) :
    sinceOpening (fs ++ [f]) = if f.createStep then [f] else sinceOpening fs ++ [f] := by
  rw [sinceOpening, List.foldl_append]
  rfl

/-- Findings that open a step, and more that do not, are the findings since then. -/
theorem sinceOpening_of_opening (before : List Findings) {f : Findings} (hf : f.createStep = true)
    {more : List Findings} (hmore : ∀ g ∈ more, g.createStep = false) :
    sinceOpening (before ++ f :: more) = f :: more := by
  induction more using List.reverseRecOn with
  | nil => rw [sinceOpening_append_singleton, if_pos hf]
  | append_singleton more g ih =>
    have hg : g.createStep = false := hmore g (by simp)
    have hrest := ih fun h hh => hmore h (List.mem_append_left _ hh)
    rw [← List.cons_append, ← List.append_assoc, sinceOpening_append_singleton, hrest,
      if_neg (by simp [hg])]

/-! ### Unions -/

theorem Statebag.claims_after (b : Statebag) (f : Findings) :
    (b.after f).claims = b.claims.update f.claimsUpdates := by
  unfold Statebag.after
  split <;> rfl

theorem Statebag.entries_after (b : Statebag) (f : Findings) :
    (b.after f).entries =
      Fields.update (if f.createStep then [] else b.entries) f.statebagUpdates := by
  unfold Statebag.after
  split <;> rfl

/-- **Entries last for a step.** -/
theorem isUnion_entries (fs : List Findings) :
    IsUnion ((sinceOpening fs).map Findings.statebagUpdates)
      (fs.foldl Statebag.after {}).entries := by
  -- from the end: the last findings start the entries over, or add to them
  induction fs using List.reverseRecOn with
  | nil => exact isUnion_nil
  | append_singleton fs f ih =>
    rw [sinceOpening_append_singleton, List.foldl_append, List.foldl_cons, List.foldl_nil,
      Statebag.entries_after]
    cases f.createStep with
    | true => exact isUnion_nil.update f.statebagUpdates
    | false =>
      have hunion := ih.update f.statebagUpdates
      simpa using hunion

/-- **Claims last for the trace.** -/
theorem isUnion_claims (fs : List Findings) :
    IsUnion (fs.map Findings.claimsUpdates) (fs.foldl Statebag.after {}).claims := by
  induction fs using List.reverseRecOn with
  | nil => exact isUnion_nil
  | append_singleton fs f ih =>
    rw [List.map_append, List.foldl_append, List.foldl_cons, List.foldl_nil, Statebag.claims_after]
    exact ih.update f.claimsUpdates

namespace Rebuilding

variable {registry : Registry} {settings : TraceSettings} {logs : List LogInput}

/-- What was found while a step was open is what was found since it was opened. -/
theorem IsVisit.sinceOpening_eq {past : List Occurrence} {number : Int}
    {before during : List Findings}
    (h : IsVisit registry settings logs past number before during) :
    sinceOpening (before ++ during) = during := by
  obtain @⟨earlier, later, opening, f, hfound, hcreate⟩ := h
  refine sinceOpening_of_opening _ hcreate fun g hg => ?_
  simpa using List.mem_takeWhile_imp hg

/-- The statebag that a step is filed with. -/
theorem IsFiledAs.isUnion {past : List Occurrence} {number : Int} {before during : List Findings}
    (hvisit : IsVisit registry settings logs past number before during) {s filed : TraceStep}
    (h : IsFiledAs ((before ++ during).foldl Statebag.after {}) s filed) :
    IsUnion (during.map Findings.statebagUpdates) filed.statebag ∧
      IsUnion ((before ++ during).map Findings.claimsUpdates) filed.claims := by
  have hentries := isUnion_entries (before ++ during)
  rw [hvisit.sinceOpening_eq] at hentries
  rw [h.statebag, h.claims]
  exact ⟨hentries, isUnion_claims _⟩

/-- The statebag at the end of a trace. -/
theorem statebag_rebuildWith (registry : Registry) (passes : List Pass) (settings : TraceSettings)
    (logs : List LogInput) :
    let trace := (rebuildWith registry passes settings logs).2
    (⟨trace.statebag, trace.claims⟩ : Statebag) =
      ((behind registry settings logs []).found (occurrences settings logs)).foldl
        Statebag.after {} := by
  intro trace
  by_cases hlogs : supportedLogs settings logs = []
  · have hempty : occurrences settings logs = [] := by rw [occurrences, hlogs]; rfl
    have htrace : trace = { success := false, errors := [noSupportedEvents] } := by
      show (rebuildWith registry passes settings logs).2 = _
      rw [rebuildWith, hlogs]
    rw [htrace, hempty]
    rfl
  · have htrace : trace = ((behind registry settings logs (occurrences settings logs)).close).trace
        (mainJourneyOf (supportedLogs settings logs)) passes :=
      congrArg Prod.snd (rebuildWith_eq hlogs)
    rw [← statebag_behind, ← statebag_close, htrace]
    rfl

/-- **The statebags of a trace.**  A step that is closed, whatever closes it, is filed with a
statebag that is the union of what was found while it was open, and with claims that are the
union of all that was found until then.  The statebag and the claims at the end of the trace are
the unions of what was found since the last step was opened, and of all that was found. -/
theorem statebag_of_steps (registry : Registry) (passes : List Pass) (settings : TraceSettings)
    (logs : List LogInput) :
    (∀ past o rest, occurrences settings logs = past ++ o :: rest →
      ∀ s, .closed s ∈ (behind registry settings logs past).filed o →
        ∃ before during,
          IsVisit registry settings logs (past ++ [o]) s.sequence before during ∧
          IsUnion (during.map Findings.statebagUpdates) s.statebag ∧
          IsUnion ((before ++ during).map Findings.claimsUpdates) s.claims) ∧
    (∀ s, .closed s ∈ (behind registry settings logs (occurrences settings logs)).closing →
      ∃ before during,
        IsVisit registry settings logs (occurrences settings logs) s.sequence before during ∧
        IsUnion (during.map Findings.statebagUpdates) s.statebag ∧
        IsUnion ((before ++ during).map Findings.claimsUpdates) s.claims) ∧
    let found := (behind registry settings logs []).found (occurrences settings logs)
    let trace := (rebuildWith registry passes settings logs).2
    IsUnion ((sinceOpening found).map Findings.statebagUpdates) trace.statebag ∧
      IsUnion (found.map Findings.claimsUpdates) trace.claims := by
  refine ⟨?_, ?_, ?_⟩
  · intro past o rest _ s h
    obtain ⟨before, during, s', hvisit, -, hfiled⟩ := exists_visit_of_filed h
    exact ⟨before, during, hvisit, hfiled.isUnion hvisit⟩
  · intro s h
    obtain ⟨before, during, s', hvisit, hfiled⟩ := exists_visit_of_closing h
    exact ⟨before, during, hfiled.sequence ▸ hvisit.visit, hfiled.isUnion hvisit.visit⟩
  · intro found trace
    have hstatebag := statebag_rebuildWith registry passes settings logs
    have hentries := isUnion_entries found
    have hclaims := isUnion_claims found
    rw [← hstatebag] at hentries hclaims
    exact ⟨hentries, hclaims⟩

end Rebuilding
end TrustFramework
