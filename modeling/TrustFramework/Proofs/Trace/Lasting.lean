import TrustFramework.Proofs.Trace.Findings
import TrustFramework.Proofs.Trace.Repetition

/-!
# What steps keep

A step is opened, takes facts and outcomes, and is closed; then repetitions of it may be folded
in, and the passes are made over it.  What holds of every step that is opened, and is kept each
time, holds of all steps of a trace.

## Main definitions

* `Rebuilding.IsLasting` — what holds of a step that is opened, and is kept until it is closed.
* `Rebuilding.OpenHas`, `Rebuilding.ClosedHave` — what holds of the open step, and of those that
  are closed.

## Main results

* `Rebuilding.IsLasting.undergo` — **whatever happens, the open step keeps what lasts.**
* `Rebuilding.IsLasting.of_mem_allFilings` — what lasts holds of every step that is closed.
* `Rebuilding.forall_steps_close_behind` — **what holds of all that is filed** holds of the steps
  of a run.
* `forall_steps_rebuildWith` — and of those of a trace.
-/

namespace TrustFramework
namespace Rebuilding

/-- What holds of a step that is opened, and is kept until the step is closed. -/
structure IsLasting (P : TraceStep → Prop) : Prop where
  opened (t : Rebuilding) (f : Findings) (log : LogInput) (eventType : String) {s : TraceStep}
    (h : (t.openStep f log eventType).current = some s) : P s
  /-- Facts are put into the step. -/
  facts (f : Findings) (claims : Fields String) {s : TraceStep} (h : P s) : P (f.applyTo claims s)
  /-- Nothing but its outcome changes. -/
  outcome {s s' : TraceStep} (h : P s) (hsame : s'.unjudged = s.unjudged) : P s'
  /-- Nothing but what changes of state say changes. -/
  change {s s' : TraceStep} (h : P s) (hsame : s'.unmoved = s.unmoved) : P s'
  closed (t : Rebuilding) {s : TraceStep} (h : P s) : P (t.snapshot s).located

variable {P : TraceStep → Prop} {t : Rebuilding}

/-- What holds of the step that is open, if there is one. -/
def OpenHas (P : TraceStep → Prop) (t : Rebuilding) : Prop := ∀ s, t.current = some s → P s

/-- What holds of all steps that are closed. -/
def ClosedHave (P : TraceStep → Prop) (filings : List Filing) : Prop :=
  ∀ s, .closed s ∈ filings → P s

theorem closedHave_nil : ClosedHave P [] := fun _ hs => absurd hs List.not_mem_nil

theorem ClosedHave.append {filings more : List Filing} (h : ClosedHave P filings)
    (hmore : ClosedHave P more) : ClosedHave P (filings ++ more) := fun s hs =>
  (List.mem_append.mp hs).elim (h s) (hmore s)

theorem OpenHas.map (h : OpenHas P t) {f : TraceStep → TraceStep} (hf : ∀ s, P s → P (f s)) :
    OpenHas P { t with current := t.current.map f } := by
  intro s hs
  obtain ⟨s, hcurrent, rfl⟩ := Option.map_eq_some_iff.mp hs
  exact hf s (h s hcurrent)

theorem openHas_close (t : Rebuilding) : OpenHas P t.close := by
  intro s hs
  rw [current_close] at hs
  cases hs

/-! ### Steps that are open -/

section

variable (hP : IsLasting P)
include hP

theorem IsLasting.closing (h : OpenHas P t) : ClosedHave P t.closing := by
  intro s hs
  obtain ⟨s', hcurrent, heq⟩ := Option.map_eq_some_iff.mp (Option.mem_toList.mp hs)
  obtain rfl := Filing.closed.inj heq
  exact hP.closed t (h s' hcurrent)

theorem IsLasting.advance (h : OpenHas P t) (f : Findings) (log : LogInput) (eventType : String) :
    OpenHas P (t.advance f log eventType) := by
  have hfacts {u : Rebuilding} (hu : OpenHas P u) (journeys : JourneyStack) :
      OpenHas P { u with journeys, current := u.current.map (f.applyTo u.statebag.claims) } :=
    OpenHas.map (t := { u with journeys }) hu fun s => hP.facts f u.statebag.claims
  unfold Rebuilding.advance
  cases f.createStep with
  | true => exact hfacts (fun s hs => hP.opened t f log eventType hs) _
  | false =>
    have hopen : OpenHas P { t.takeUpdates f with current := t.current.map (outcomeOfOpen f) } :=
      OpenHas.map (t := t.takeUpdates f) h fun s hs => hP.outcome hs (unjudged_outcomeOfOpen f s)
    exact hfacts hopen _

/-- Findings leave the step that is open with what lasts, and so they close it. -/
theorem IsLasting.apply (h : OpenHas P t) (f : Findings) (log : LogInput) (eventType : String) :
    ClosedHave P (t.filedBy f log eventType) ∧ OpenHas P (t.apply f log eventType) := by
  unfold filedBy
  cases hsuccess : f.success with
  | false =>
    obtain ⟨errors, happly⟩ := exists_apply_of_not_success t log eventType hsuccess
    rw [happly]
    exact ⟨closedHave_nil, h⟩
  | true =>
    have hadvance : OpenHas P (t.advance f log eventType) := hP.advance h f log eventType
    have hconcluded : OpenHas P ((t.advance f log eventType).concludeOpen f) :=
      hadvance.map fun s hs => hP.outcome hs (unjudged_concluded f s)
    rw [apply_of_success hsuccess, if_pos rfl]
    constructor
    · refine ClosedHave.append ?_ ?_ <;> split
      · exact hP.closing h
      · exact closedHave_nil
      · exact hP.closing hconcluded
      · exact closedHave_nil
    · split
      · exact openHas_close _
      · exact hadvance

/-- **Step.**  Whatever happens, the step that is open keeps what lasts, until it is closed. -/
theorem IsLasting.undergo (h : OpenHas P t) (o : Occurrence) :
    ClosedHave P (t.filed o) ∧ OpenHas P (t.undergo o) := by
  cases o with
  | malformed line => exact ⟨closedHave_nil, h⟩
  | fatal log message =>
    have hfailed : OpenHas P (t.failOpen message) :=
      OpenHas.map (t := t.report message) h fun s hs =>
        hP.outcome hs (TraceStep.unjudged_withError s message none)
    refine ⟨(hP.closing hfailed).append fun s hs => ?_, openHas_close (t.failOpen message)⟩
    cases List.mem_singleton.mp hs
  | event log e =>
    cases e with
    | change c =>
      exact ⟨closedHave_nil,
        h.map fun s hs => hP.change hs (unmoved_noteTransition c.eventName s)⟩
    | group g =>
      rw [undergo_group, filed]
      obtain ⟨f, registry, journeys, htake, hfiled⟩ | ⟨⟨registry, errors, htake⟩, hfiled⟩ :=
        filedByGroup_cases t log g
      · rw [htake, hfiled]
        exact hP.apply (t := { t with registry, journeys }) h f log log.type
      · rw [htake, hfiled]
        exact ⟨closedHave_nil, h⟩

variable {registry : Registry} {settings : TraceSettings} {logs : List LogInput}

/-- **Run.**  The step that is open has what lasts. -/
theorem IsLasting.behind (past : List Occurrence) :
    OpenHas P (behind registry settings logs past) :=
  behind_induction (motive := fun _ t => OpenHas P t)
    (fun s hs => absurd hs.symm (Option.some_ne_none s))
    (fun _ o h => (hP.undergo h o).2) past

/-- **What lasts holds of every step that is closed.** -/
theorem IsLasting.of_mem_allFilings {s : TraceStep}
    (h : .closed s ∈ allFilings registry settings logs) : P s := by
  rcases List.mem_append.mp h with h | h
  · obtain ⟨earlier, o, later, -, hfiled⟩ := exists_of_mem_filings h
    exact (hP.undergo (hP.behind earlier) o).1 s hfiled
  · exact hP.closing (hP.behind _) s h

end

/-! ### Steps that are filed -/

/-- What holds of the steps, and of what is kept of a filing, holds of the steps after it, if
folding keeps it. -/
theorem forall_steps_file (habsorb : ∀ s again, P s → P again → P (s.absorb again))
    (h : ∀ s ∈ t.steps, P s) {x : Filing} (hfatal : ∀ s, x = .fatal s → P s)
    (hclosed : ∀ s, x = .closed s → isKept s = true → P s) : ∀ s ∈ (t.file x).steps, P s := by
  have hnew {s' : TraceStep} (hs' : P s') : ∀ s ∈ t.steps ++ [s'], P s := by
    intro s hs
    rcases List.mem_append.mp hs with hs | hs
    · exact h s hs
    · exact List.mem_singleton.mp hs ▸ hs'
  cases x with
  | fatal s' => exact hnew (hfatal s' rfl)
  | closed s' =>
    show ∀ s ∈ (t.settle s').steps, P s
    obtain ⟨-, hsettle⟩ | ⟨place, time, hkept, -, -, hsettle⟩ | ⟨hkept, -, hsettle⟩ :=
      settle_cases t s'
    · rw [hsettle]
      exact h
    · rw [hsettle]
      intro s hs
      obtain ⟨i, hi, rfl⟩ := List.getElem_of_mem hs
      rw [List.getElem_modify]
      split
      · exact habsorb _ _ (h _ (List.getElem_mem _)) (hclosed s' rfl hkept)
      · exact h _ (List.getElem_mem _)
    · rw [hsettle]
      exact hnew (hclosed s' rfl hkept)

variable {registry : Registry} {settings : TraceSettings} {logs : List LogInput}

/-- **What holds of all that is filed in a run**, and is kept by folding, holds of its steps. -/
theorem forall_steps_close_behind (habsorb : ∀ s again, P s → P again → P (s.absorb again))
    (hfatal : ∀ s, .fatal s ∈ allFilings registry settings logs → P s)
    (hclosed : ∀ s, .closed s ∈ allFilings registry settings logs → isKept s = true → P s) :
    ∀ s ∈ (Rebuilding.behind registry settings logs (occurrences settings logs)).close.steps,
      P s := by
  -- the steps that are kept depend on the filings alone, so that the induction is on these
  have hsteps :
      (Rebuilding.behind registry settings logs (occurrences settings logs)).close.steps =
        ((allFilings registry settings logs).foldl file
          (Rebuilding.behind registry settings logs [])).steps :=
    congrArg Prod.fst (book_close_behind registry settings logs)
  rw [hsteps]
  generalize allFilings registry settings logs = filings at hfatal hclosed
  induction filings using List.reverseRecOn with
  | nil => exact fun s hs => absurd hs List.not_mem_nil
  | append_singleton filings x ih =>
    rw [List.foldl_append]
    refine forall_steps_file habsorb (ih ?_ ?_) ?_ ?_
    · exact fun s hs => hfatal s (List.mem_append_left _ hs)
    · exact fun s hs => hclosed s (List.mem_append_left _ hs)
    · rintro s rfl
      exact hfatal s (by simp)
    · rintro s rfl
      exact hclosed s (by simp)

end Rebuilding

/-- What holds of the steps of a run, whatever their durations and selections are, holds of those
of the trace. -/
theorem forall_steps_rebuildWith {P : TraceStep → Prop}
    (hpasses : ∀ (s : TraceStep) (selected : Value) (duration : Option Int),
      P s → P { s with selected, duration })
    {registry : Registry} {settings : TraceSettings} {logs : List LogInput}
    (h : ∀ s ∈ (Rebuilding.behind registry settings logs (occurrences settings logs)).close.steps,
      P s)
    (passes : List Pass) : ∀ s ∈ (rebuildWith registry passes settings logs).2.steps, P s := by
  intro s hs
  have hsteps := map_steps_rebuildWith
    (f := fun s : TraceStep => { s with selected := .null, duration := none })
    (fun _ _ => rfl) (fun _ _ => rfl) registry passes settings logs
  obtain ⟨s', hs', heq⟩ := List.mem_map.mp (hsteps ▸ List.mem_map_of_mem hs)
  have hP := hpasses s' .null none (h s' hs')
  rw [heq] at hP
  exact hpasses { s with selected := .null, duration := none } s.selected s.duration hP

end TrustFramework
