import TrustFramework.Proofs.Trace.Header
import TrustFramework.Proofs.Trace.Run

/-!
# What a group does to a trace

Only interpreting a group changes the registry; what the findings mean for the trace leaves
it alone.  Findings that open a step open one of the journey that runs, whatever was open
before, and findings that neither open nor close a step leave all steps where they are.

## Main definitions

* `Rebuilding.newHeader` — the header of a step opened now.
* `Rebuilding.contextOf`, `Rebuilding.moveTo` — what a group is interpreted in, and where it
  moves the journey.

## Main results

* `Rebuilding.exists_close_eq` — what closing a step can change.
* `Rebuilding.apply_of_createStep` — **findings that open a step.**
* `Rebuilding.apply_of_not_createStep` — **findings that neither open nor close one.**
* `Rebuilding.registry_takeGroup`, `Rebuilding.takeGroup_of_done` — a group interpreted.
-/

namespace TrustFramework

namespace Rebuilding

/-! ### Closing -/

/-- Settling a step changes nothing but the steps. -/
theorem exists_settle_eq (t : Rebuilding) (s : TraceStep) :
    ∃ steps seen, t.settle s = { t with steps, seen } := by
  unfold settle
  split
  · split
    · exact ⟨_, _, rfl⟩
    · exact ⟨_, _, rfl⟩
  · exact ⟨_, _, rfl⟩

/-- Closing the open step changes nothing but the steps. -/
theorem exists_close_eq (t : Rebuilding) :
    ∃ steps seen, t.close = { t with steps, seen, current := none } := by
  unfold close
  split
  · next hcurrent => exact ⟨t.steps, t.seen, by rw [← hcurrent]⟩
  · exact exists_settle_eq _ _

@[simp] theorem registry_close (t : Rebuilding) : t.close.registry = t.registry := by
  obtain ⟨_, _, h⟩ := exists_close_eq t
  rw [h]

@[simp] theorem sequence_close (t : Rebuilding) : t.close.sequence = t.sequence := by
  obtain ⟨_, _, h⟩ := exists_close_eq t
  rw [h]

@[simp] theorem journeys_close (t : Rebuilding) : t.close.journeys = t.journeys := by
  obtain ⟨_, _, h⟩ := exists_close_eq t
  rw [h]

/-! ### Findings -/

/-- The header of a step opened now. -/
def newHeader (t : Rebuilding) (log : LogInput) (eventType : String) : StepHeader where
  sequence := t.sequence
  timestamp := log.timestamp
  logId := log.id
  eventType
  journeyId := t.journeys.current.id
  journeyName := t.journeys.current.name
  order := t.journeys.current.orchStep

/-- A step is opened in the journey that runs. -/
theorem openStep_spec (t : Rebuilding) (f : Findings) (log : LogInput) (eventType : String) :
    ∃ s, (t.openStep f log eventType).current = some s ∧
      s.header = t.newHeader log eventType ∧
      (t.openStep f log eventType).sequence = t.sequence + 1 := by
  refine ⟨_, rfl, ?_, ?_⟩
  · -- the step is made of what closing the one before it leaves as it is
    rw [header_outcome]
    have hjourneys := journeys_close t
    have hsequence := sequence_close t
    split
    · show (TraceStep.placed _).header = _
      rw [TraceStep.header_placed]
      simp [newStep, takeUpdates, TraceStep.header, newHeader]
    · rw [TraceStep.header_placed]
      simp [newStep, takeUpdates, TraceStep.header, newHeader]
  · show t.close.sequence + 1 = _
    rw [sequence_close]

/-- **Findings that open a step.**  It is one of the journey that runs. -/
theorem apply_of_createStep {t : Rebuilding} {f : Findings} {log : LogInput} {eventType : String}
    (hsuccess : f.success = true) (hcreate : f.createStep = true)
    (hfinalize : f.finalizeStep = false) :
    ∃ s, (t.apply f log eventType).current = some s ∧ s.header = t.newHeader log eventType ∧
      (t.apply f log eventType).sequence = t.sequence + 1 := by
  obtain ⟨s, hcurrent, hheader, hsequence⟩ := openStep_spec t f log eventType
  unfold apply
  simp only [hsuccess, hcreate, hfinalize, Bool.not_true, Bool.false_eq_true, if_false, if_true,
    hcurrent]
  exact ⟨_, rfl, by rw [Findings.header_applyTo, hheader], hsequence⟩

/-- **Findings that neither open nor close a step.**  The open one stays the same step, and
all others are as they were. -/
theorem apply_of_not_createStep {t : Rebuilding} {f : Findings} {log : LogInput}
    {eventType : String} (hcreate : f.createStep = false) (hfinalize : f.finalizeStep = false) :
    (t.apply f log eventType).sequence = t.sequence ∧ (t.apply f log eventType).steps = t.steps ∧
      (t.apply f log eventType).current.map TraceStep.header =
        t.current.map TraceStep.header := by
  unfold apply
  split
  · split <;> exact ⟨rfl, rfl, rfl⟩
  · simp only [hcreate, hfinalize, Bool.false_eq_true, if_false, takeUpdates]
    cases t.current with
    | none => exact ⟨rfl, rfl, rfl⟩
    | some s => exact ⟨rfl, rfl, by simp⟩

@[simp] theorem registry_apply (t : Rebuilding) (f : Findings) (log : LogInput)
    (eventType : String) : (t.apply f log eventType).registry = t.registry := by
  have hopen : (t.openStep f log eventType).registry = t.registry := registry_close t
  unfold apply
  split
  · split <;> rfl
  · cases hcreate : f.createStep with
    | true =>
      simp only [if_true]
      split
      · exact hopen
      · split
        · exact (registry_close _).trans hopen
        · exact hopen
    | false =>
      simp only [Bool.false_eq_true, if_false]
      split
      · rfl
      · split
        · exact registry_close _
        · rfl

/-! ### Interpreting -/

/-- The journeys once the one that runs has moved, if it has. -/
def moveTo (j : JourneyStack) : Option Int → JourneyStack
  | some step => j.atStep step
  | none => j

/-- What a group is interpreted in. -/
def contextOf (t : Rebuilding) (log : LogInput) (g : HandlerGroup) : Context where
  handler := g.handler
  result := g.result
  timestamp := log.timestamp
  statebag := t.statebag.entries

/-- The registry after a group is that after interpreting it. -/
theorem registry_takeGroup (t : Rebuilding) (log : LogInput) (eventType : String)
    (g : HandlerGroup) :
    (t.takeGroup log eventType g).registry = (t.registry.interpret (t.contextOf log g)).1 := by
  unfold takeGroup contextOf
  split
  next registry reading hinterpret =>
  rw [hinterpret]
  cases reading with
  | skipped => rfl
  | failed => rfl
  | done findings moved =>
    cases moved <;> exact registry_apply _ _ _ _

/-- A group is taken by its findings, in the journey that moved to the step they are
about. -/
theorem takeGroup_of_done {t : Rebuilding} {log : LogInput} {eventType : String}
    {g : HandlerGroup} {findings : Findings} {moved : Option Int}
    (h : (t.registry.interpret (t.contextOf log g)).2 = .done findings moved) :
    t.takeGroup log eventType g =
      { t with
        registry := (t.registry.interpret (t.contextOf log g)).1
        journeys := moveTo t.journeys moved }.apply findings log eventType := by
  unfold takeGroup
  unfold contextOf at h ⊢
  split
  next registry reading hinterpret =>
  rw [hinterpret] at h ⊢
  obtain rfl : reading = .done findings moved := h
  cases moved <;> rfl

/-! ### Occurrences -/

/-- Nothing but a group changes the registry. -/
theorem registry_undergo_malformed (t : Rebuilding) (line : String) :
    (t.undergo (.malformed line)).registry = t.registry := rfl

theorem registry_undergo_change (t : Rebuilding) (log : LogInput) (c : Transition) :
    (t.undergo (.event log (.change c))).registry = t.registry := rfl

theorem registry_undergo_fatal (t : Rebuilding) (log : LogInput) (message : String) :
    (t.undergo (.fatal log message)).registry = t.registry := by
  unfold undergo takeFatal
  exact registry_close _

end Rebuilding

/-- The running journey that moved to a step is the same journey at the step. -/
theorem JourneyStack.current_atStep (j : JourneyStack) (step : Int) :
    (j.atStep step).current = { j.current with orchStep := step } := by
  cases hinner : j.inner <;> simp [atStep, current, hinner]

end TrustFramework
