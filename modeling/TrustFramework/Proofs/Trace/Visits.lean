import Mathlib.Data.List.TakeWhile
import TrustFramework.Proofs.Trace.Findings

/-!
# The findings a step is made of

A step is opened by the findings about a group, and takes those about all groups after it until
it is closed: by findings that open the next step, by findings that close it, by an exception, or
at the end.

## Main definitions

* `Rebuilding.IsMadeOf` — a step and the findings that it took.
* `Rebuilding.IsVisit` — the findings before a step was opened, and those while it was open.
* `Rebuilding.IsFiledAs` — an open step and the closed one that is filed.

## Main results

* `Rebuilding.exists_visit` — **an open step took what was found since it was opened.**
* `Rebuilding.exists_visit_of_filed` — **and so did a step that is closed**, until it was.
-/

namespace TrustFramework
namespace Rebuilding

/-! ### What a step is made of -/

/-- A step that is open, with the findings that it took. -/
inductive IsMadeOf : List Findings → TraceStep → Prop
  /-- It was opened by findings. -/
  | opened {s : TraceStep} {f : Findings} (claims : Fields String) (hfresh : s.IsFresh)
      (hcreate : f.createStep = true) : IsMadeOf [f] (f.takenInto claims (outcome f s))
  /-- It took more of them. -/
  | taken {fs : List Findings} {s : TraceStep} {f : Findings} (claims : Fields String)
      (h : IsMadeOf fs s) (hcreate : f.createStep = false) :
      IsMadeOf (fs ++ [f]) (f.takenInto claims (outcomeOfOpen f s))
  /-- A change of state was noted in it. -/
  | noted {fs : List Findings} {s : TraceStep} (eventName : String) (h : IsMadeOf fs s) :
      IsMadeOf fs (noteTransition eventName s)

/-! ### Visits -/

section

variable (registry : Registry) (settings : TraceSettings) (logs : List LogInput)

/-- What was found in some occurrences before the step with a number was opened, and what was
found from then on until the next one was. -/
inductive IsVisit : List Occurrence → Int → List Findings → List Findings → Prop
  | intro {earlier later : List Occurrence} {opening : Occurrence} {f : Findings}
      (hfound : (behind registry settings logs earlier).found? opening = some f)
      (hcreate : f.createStep = true) :
      IsVisit (earlier ++ opening :: later) (behind registry settings logs earlier).sequence
        ((behind registry settings logs []).found earlier)
        (f :: ((behind registry settings logs (earlier ++ [opening])).found later).takeWhile
          fun g => !g.createStep)

/-- An open step with what was found before and since it was opened, which is all there is. -/
structure IsOpenVisit (past : List Occurrence) (s : TraceStep) (before during : List Findings) :
    Prop where
  visit : IsVisit registry settings logs past s.sequence before during
  whole : before ++ during = (behind registry settings logs []).found past
  madeOf : IsMadeOf during s

end

variable {registry : Registry} {settings : TraceSettings} {logs : List LogInput}

theorem behind_append_cons (earlier later : List Occurrence) (o : Occurrence) :
    behind registry settings logs (earlier ++ o :: later) =
      later.foldl undergo (behind registry settings logs (earlier ++ [o])) := by
  rw [behind, behind, ← List.foldl_append, List.append_assoc]
  rfl

theorem found_behind_append_cons (earlier later : List Occurrence) (o : Occurrence) :
    (behind registry settings logs []).found (earlier ++ o :: later) =
      (behind registry settings logs []).found earlier ++
        (((behind registry settings logs earlier).found? o).toList ++
          (behind registry settings logs (earlier ++ [o])).found later) := by
  rw [behind_append_singleton]
  exact along_append _ _ earlier (o :: later)

/-- Findings that open a step begin a visit. -/
theorem IsVisit.opened {past : List Occurrence} {o : Occurrence} {f : Findings}
    (hfound : (behind registry settings logs past).found? o = some f)
    (hcreate : f.createStep = true) :
    IsVisit registry settings logs (past ++ [o]) (behind registry settings logs past).sequence
      ((behind registry settings logs []).found past) [f] :=
  @IsVisit.intro registry settings logs past [] o f hfound hcreate

/-- A visit goes on with what is found, unless that opens a step. -/
theorem IsVisit.append_singleton {past : List Occurrence} {number : Int}
    {before during : List Findings}
    (h : IsVisit registry settings logs past number before during)
    (hwhole : before ++ during = (behind registry settings logs []).found past) (o : Occurrence) :
    IsVisit registry settings logs (past ++ [o]) number before
      (during ++ (((behind registry settings logs past).found? o).filter
        fun f => !f.createStep).toList) := by
  obtain @⟨earlier, later, opening, f, hfound, hcreate⟩ := h
  rw [found_behind_append_cons, hfound, Option.toList_some, List.singleton_append,
    List.append_cancel_left_eq, List.cons.injEq] at hwhole
  rw [behind_append_cons earlier later opening]
  -- nothing that was found since then opened a step
  have hnone := List.takeWhile_eq_self_iff.mp hwhole.2
  have hmore :=
    found_append_singleton (behind registry settings logs (earlier ++ [opening])) later o
  have hvisit := @IsVisit.intro registry settings logs earlier (later ++ [o]) opening f hfound hcreate
  rw [hmore, List.takeWhile_append_of_pos hnone] at hvisit
  rw [hwhole.2, List.append_assoc, List.cons_append]
  convert hvisit using 3
  cases ((later.foldl undergo (behind registry settings logs (earlier ++ [opening]))).found? o) with
  | none => rfl
  | some g => cases hg : g.createStep <;> simp [hg]

/-! ### Steps that are open -/

@[simp] theorem sequence_takenInto_outcome (f : Findings) (claims : Fields String) (s : TraceStep) :
    (f.takenInto claims (outcome f s)).sequence = s.sequence :=
  congrArg StepHeader.sequence ((header_takenInto f claims _).trans (header_outcome f s))

@[simp] theorem sequence_takenInto_outcomeOfOpen (f : Findings) (claims : Fields String)
    (s : TraceStep) : (f.takenInto claims (outcomeOfOpen f s)).sequence = s.sequence :=
  congrArg StepHeader.sequence ((header_takenInto f claims _).trans (header_outcomeOfOpen f s))

@[simp] theorem sequence_noteTransition (eventName : String) (s : TraceStep) :
    (noteTransition eventName s).sequence = s.sequence :=
  congrArg StepHeader.sequence (header_noteTransition eventName s)

/-- What finds nothing goes on with the visit. -/
theorem IsOpenVisit.of_found?_eq_none {past : List Occurrence} {o : Occurrence} {s s' : TraceStep}
    {before during : List Findings}
    (h : IsOpenVisit registry settings logs past s before during)
    (hfound : (behind registry settings logs past).found? o = none)
    (hsequence : s'.sequence = s.sequence) (hmade : IsMadeOf during s') :
    IsOpenVisit registry settings logs (past ++ [o]) s' before during where
  visit := by
    have hvisit := h.visit.append_singleton h.whole o
    rw [hfound] at hvisit
    rw [hsequence]
    simpa using hvisit
  whole := by rw [found_behind_append_singleton, hfound, ← h.whole]; simp
  madeOf := hmade

/-- **Step.**  Findings are taken by an open step, with all that was found since it was opened. -/
theorem exists_isOpenVisit_takenInto {past : List Occurrence} {o : Occurrence} {f : Findings}
    (hfound : (behind registry settings logs past).found? o = some f)
    (ih : ∀ s, (behind registry settings logs past).current = some s →
      ∃ before during, IsOpenVisit registry settings logs past s before during)
    {s : TraceStep} (claims : Fields String)
    (htaker : IsTaker f (behind registry settings logs past).sequence
      (behind registry settings logs past).current (some s)) :
    ∃ before during,
      IsOpenVisit registry settings logs (past ++ [o]) (f.takenInto claims s) before during := by
  have hmore : (behind registry settings logs []).found (past ++ [o]) =
      (behind registry settings logs []).found past ++ [f] := by
    rw [found_behind_append_singleton, hfound, Option.toList_some]
  generalize hs : some s = taker? at htaker
  cases htaker with
  | @fresh s₀ hcreate hfresh hsequence =>
    obtain rfl := Option.some.inj hs
    refine ⟨(behind registry settings logs []).found past, [f], ?_, hmore.symm,
      .opened claims hfresh hcreate⟩
    rw [sequence_takenInto_outcome, hsequence]
    exact IsVisit.opened hfound hcreate
  | current hcreate =>
    obtain ⟨s₀, hcurrent, rfl⟩ := Option.map_eq_some_iff.mp hs.symm
    obtain ⟨before, during, hvisit⟩ := ih s₀ hcurrent
    refine ⟨before, during ++ [f], ?_, ?_, .taken claims hvisit.madeOf hcreate⟩
    · rw [sequence_takenInto_outcomeOfOpen]
      have happend := hvisit.visit.append_singleton hvisit.whole o
      rw [hfound, Option.filter_some, hcreate] at happend
      exact happend
    · rw [hmore, ← hvisit.whole, List.append_assoc]

/-- **An open step took what was found since it was opened**, and nothing else. -/
theorem exists_visit (past : List Occurrence) {s : TraceStep}
    (h : (behind registry settings logs past).current = some s) :
    ∃ before during, IsOpenVisit registry settings logs past s before during := by
  revert s
  refine behind_induction (motive := fun past t => ∀ {s}, t.current = some s →
    ∃ before during, IsOpenVisit registry settings logs past s before during) ?_ ?_ past
  · intro s h
    cases h
  · intro past o ih s h
    cases hfound : (behind registry settings logs past).found? o with
    | none =>
      obtain ⟨-, ⟨log, message, -, hclosed⟩ | ⟨-, hsame | ⟨log, c, -, hnoted⟩⟩⟩ :=
        undergo_of_found?_eq_none hfound
      · rw [hclosed] at h
        cases h
      · rw [hsame] at h
        obtain ⟨before, during, hvisit⟩ := ih h
        exact ⟨before, during, hvisit.of_found?_eq_none hfound rfl hvisit.madeOf⟩
      · rw [hnoted] at h
        obtain ⟨s₀, hcurrent, rfl⟩ := Option.map_eq_some_iff.mp h
        obtain ⟨before, during, hvisit⟩ := ih hcurrent
        exact ⟨before, during, hvisit.of_found?_eq_none hfound
          (sequence_noteTransition c.eventName s₀) (hvisit.madeOf.noted c.eventName)⟩
    | some f =>
      obtain ⟨-, taker?, htaker, hcurrent, -⟩ := undergo_of_found? hfound
      rw [hcurrent] at h
      split at h
      · cases h
      · obtain ⟨s₁, rfl, rfl⟩ := Option.map_eq_some_iff.mp h
        exact exists_isOpenVisit_takenInto hfound (fun s hs => ih hs) _ htaker

/-! ### Steps that are closed -/

/-- A step as it is filed, with what a statebag holds then. -/
structure IsFiledAs (b : Statebag) (s filed : TraceStep) : Prop where
  header : filed.header = s.header
  statebag : filed.statebag = b.entries
  claims : filed.claims = b.claims
  result : filed.result = s.result
  errorMessage : filed.errorMessage = s.errorMessage
  interaction : filed.interaction = s.interaction

theorem isFiledAs_snapshot (t : Rebuilding) (s : TraceStep) :
    IsFiledAs t.statebag s (t.snapshot s).located := by
  unfold TraceStep.located TraceStep.placed
  split
  · split <;> exact ⟨rfl, rfl, rfl, rfl, rfl, rfl⟩
  · exact ⟨rfl, rfl, rfl, rfl, rfl, rfl⟩

/-- A step that is filed with all that was found. -/
theorem isFiledAs_behind {past : List Occurrence} {before during : List Findings}
    (hwhole : before ++ during = (behind registry settings logs []).found past) (s : TraceStep) :
    IsFiledAs ((before ++ during).foldl Statebag.after {}) s
      ((behind registry settings logs past).snapshot s).located := by
  rw [hwhole, ← statebag_behind]
  exact isFiledAs_snapshot _ s

/-- The step that is open at the end is filed with all that was found since it was opened. -/
theorem exists_visit_of_closing {past : List Occurrence} {s : TraceStep}
    (h : .closed s ∈ (behind registry settings logs past).closing) :
    ∃ before during s', IsOpenVisit registry settings logs past s' before during ∧
      IsFiledAs ((before ++ during).foldl Statebag.after {}) s' s := by
  obtain ⟨s', hcurrent, hs⟩ := Option.map_eq_some_iff.mp (Option.mem_toList.mp h)
  obtain ⟨before, during, hvisit⟩ := exists_visit past hcurrent
  obtain rfl := Filing.closed.inj hs
  exact ⟨before, during, s', hvisit, isFiledAs_behind hvisit.whole s'⟩

theorem IsFiledAs.sequence {b : Statebag} {s filed : TraceStep} (h : IsFiledAs b s filed) :
    filed.sequence = s.sequence := congrArg StepHeader.sequence h.header

/-- A step that does not take what is found was made of what was found before. -/
theorem IsOpenVisit.visit_append_singleton {past : List Occurrence} {o : Occurrence}
    {s : TraceStep} {before during : List Findings}
    (h : IsOpenVisit registry settings logs past s before during)
    (hfound : ∀ f, (behind registry settings logs past).found? o = some f → f.createStep = true) :
    IsVisit registry settings logs (past ++ [o]) s.sequence before during := by
  have hnone : ((behind registry settings logs past).found? o).filter
      (fun f => !f.createStep) = none := by
    rw [Option.filter_eq_none_iff]
    intro f hf
    simp [hfound f hf]
  have hvisit := h.visit.append_singleton h.whole o
  rwa [hnone, Option.toList_none, List.append_nil] at hvisit

/-- A step as an occurrence closes it: an exception lets it fail. -/
def endedBy (s : TraceStep) : Occurrence → TraceStep
  | .fatal _ message => s.withError message none
  | _ => s

/-- **A step that is closed took what was found since it was opened**, until it was closed. -/
theorem exists_visit_of_filed {past : List Occurrence} {o : Occurrence} {s : TraceStep}
    (h : .closed s ∈ (behind registry settings logs past).filed o) :
    ∃ before during s',
      IsVisit registry settings logs (past ++ [o]) s.sequence before during ∧
      IsMadeOf during s' ∧
      IsFiledAs ((before ++ during).foldl Statebag.after {}) (endedBy s' o) s := by
  cases hfound : (behind registry settings logs past).found? o with
  | none =>
    obtain ⟨-, ⟨log, message, rfl, -⟩ | ⟨hfiled, -⟩⟩ := undergo_of_found?_eq_none hfound
    · -- an exception closes it
      rw [filed, closing_failOpen] at h
      obtain ⟨s', hcurrent, hs⟩ := Option.map_eq_some_iff.mp
        (Option.mem_toList.mp ((List.mem_append.mp h).resolve_right (by simp)))
      obtain rfl := Filing.closed.inj hs
      obtain ⟨before, during, hvisit⟩ := exists_visit past hcurrent
      have hfiledAs := isFiledAs_behind hvisit.whole (s'.withError message none)
      refine ⟨before, during, s', ?_, hvisit.madeOf, hfiledAs⟩
      rw [hfiledAs.sequence]
      exact hvisit.visit_append_singleton (by simp [hfound])
    · rw [hfiled] at h
      cases h
  | some f =>
    obtain ⟨-, taker?, htaker, -, hfiled⟩ := undergo_of_found? hfound
    have hordinary (s' : TraceStep) : endedBy s' o = s' := by
      obtain ⟨-, log, g, -, rfl, -⟩ := found?_eq_some hfound
      rfl
    rw [hfiled] at h
    rcases List.mem_append.mp h with h | h <;> split at h
    · next hcreate =>
      -- it gives way to a new step
      obtain ⟨before, during, s', hvisit, hfiledAs⟩ := exists_visit_of_closing h
      refine ⟨before, during, s', ?_, hvisit.madeOf, by rwa [hordinary]⟩
      rw [hfiledAs.sequence]
      exact hvisit.visit_append_singleton (by simp [hfound, hcreate])
    · cases h
    · -- it is closed by what it took last
      obtain ⟨s', hs', hs⟩ := Option.map_eq_some_iff.mp (Option.mem_toList.mp h)
      obtain ⟨s₁, rfl, rfl⟩ := Option.map_eq_some_iff.mp hs'
      obtain ⟨before, during, hvisit⟩ := exists_isOpenVisit_takenInto hfound
        (fun s hs => exists_visit past hs)
        ((behind registry settings logs past).statebag.after f).claims htaker
      have hfiledAs := isFiledAs_behind hvisit.whole
        (f.takenInto ((behind registry settings logs past).statebag.after f).claims s₁)
      rw [behind_append_singleton, Filing.closed.inj hs] at hfiledAs
      refine ⟨before, during, _, ?_, hvisit.madeOf, by rwa [hordinary]⟩
      rw [hfiledAs.sequence]
      exact hvisit.visit
    · cases h

end Rebuilding
end TrustFramework
