import TrustFramework.Proofs.Policy.Layering
import TrustFramework.Proofs.Trace.Verdicts
import TrustFramework.Proofs.Union

/-!
# How often nodes were visited

The executions of a trace are its steps by the node that they carry.  They grow one step at a
time, and the result of a node is merged with that of each further step; since the four results
that a step can have weigh differently, what comes of it is the gravest of them, in whatever order
they came.

## Main definitions

* `StepResult.gravest` — the gravest of some results.
* `visitsTo`, `Execution.ofVisits` — the steps that carry a node, taken together.
* `Executions.IsGroupingOf` — executions are some steps by their nodes.
* `StepResult.IsKnown` — one of the four results that weigh differently.

## Main results

* `StepResult.merge_gravest` — one more result.
* `Executions.isGroupingOf_ofSteps` — steps added one after the other are grouped.
* `Interpreter.hasKnownResult_of_interpret`, `Rebuilding.isKnown_of_mem_steps` — findings and steps
  have known results.
* `executions_group_steps` — **the executions of a trace are its steps by their nodes.**
-/

namespace TrustFramework

/-! ### The gravest result -/

namespace StepResult

/-- The gravest of some results: an error, else a wait for input, else a success. -/
def gravest (results : List StepResult) : StepResult :=
  if .error ∈ results then .error
  else if .pendingInput ∈ results then .pendingInput
  else if .success ∈ results then .success
  else .skipped

/-- One of the four results that weigh differently. -/
def IsKnown (r : StepResult) : Prop := ∀ name, r ≠ .other name

theorem IsKnown.gravest_singleton {r : StepResult} (h : r.IsKnown) : gravest [r] = r := by
  cases r with
  | other name => exact absurd rfl (h name)
  | _ => rfl

/-- A result merged with the gravest of others is the gravest of all. -/
theorem merge_gravest (results : List StepResult) (r : StepResult) :
    (gravest results).merge r = gravest (results ++ [r]) := by
  unfold gravest
  by_cases herror : StepResult.error ∈ results
  · cases r <;> simp [herror, merge, weight]
  by_cases hpending : StepResult.pendingInput ∈ results
  · cases r <;> simp [herror, hpending, merge, weight]
  by_cases hsuccess : StepResult.success ∈ results
  · cases r <;> simp [herror, hpending, hsuccess, merge, weight]
  · cases r <;> simp [herror, hpending, hsuccess, merge, weight]

end StepResult

/-! ### Grouping -/

/-- The steps that carry a node. -/
def visitsTo (node : String) (steps : List TraceStep) : List TraceStep :=
  steps.filter fun s => s.nodeId = node

/-- Visits to a node taken together. -/
def Execution.ofVisits (visits : List TraceStep) : Execution where
  status := StepResult.gravest (visits.map TraceStep.result)
  visits := visits.length
  sequences := visits.map TraceStep.sequence

namespace Executions

/-- Executions are some steps by their nodes: they have the nodes of these in the order of the
first visits, each with all its visits taken together. -/
structure IsGroupingOf (steps : List TraceStep) (m : Executions) : Prop where
  names_eq : Fields.names m =
    distinct ((steps.map TraceStep.nodeId).filter fun node => !node.isEmpty)
  get?_eq : ∀ node, node ≠ "" → Fields.get? m node =
    if visitsTo node steps = [] then none else some (.ofVisits (visitsTo node steps))

variable {steps : List TraceStep} {m : Executions} {s : TraceStep}

theorem visitsTo_append_singleton (node : String) (steps : List TraceStep) (s : TraceStep) :
    visitsTo node (steps ++ [s]) = visitsTo node steps ++ if s.nodeId = node then [s] else [] := by
  unfold visitsTo
  rw [List.filter_append]
  by_cases h : s.nodeId = node <;> simp [h]

/-- One more visit to those of a node. -/
theorem visited_ofVisits (visits : List TraceStep) (hs : s.result.IsKnown) :
    visited s.sequence s.result (if visits = [] then none else some (.ofVisits visits)) =
      .ofVisits (visits ++ [s]) := by
  by_cases h : visits = []
  · subst h
    simp [visited, Execution.ofVisits, hs.gravest_singleton]
  · simp [h, visited, Execution.ofVisits, StepResult.merge_gravest]

/-- **Step.**  Executions with one more step are grouped with it. -/
theorem IsGroupingOf.add (h : m.IsGroupingOf steps) (hs : s.result.IsKnown) :
    (m.add s).IsGroupingOf (steps ++ [s]) := by
  unfold Executions.add
  by_cases hempty : s.nodeId.isEmpty = true
  · -- a step without a node counts for no node
    rw [if_pos hempty]
    refine ⟨?_, fun node hnode => ?_⟩
    · simp [h.names_eq, hempty]
    · have hne : s.nodeId ≠ node := fun heq => hnode (heq ▸ String.isEmpty_iff.mp hempty)
      rw [visitsTo_append_singleton, if_neg hne, List.append_nil, h.get?_eq node hnode]
  · rw [if_neg hempty]
    have hself : s.nodeId ≠ "" := fun heq => hempty (String.isEmpty_iff.mpr heq)
    refine ⟨?_, fun node hnode => ?_⟩
    · rw [Fields.alter, Fields.names_set, Fields.has_eq_contains, h.names_eq, List.map_append,
        List.filter_append]
      simp [hempty, distinct_append_singleton, addNew]
    · rw [Fields.alter, h.get?_eq _ hself, visited_ofVisits _ hs, visitsTo_append_singleton]
      by_cases heq : s.nodeId = node
      · subst heq
        simp [Fields.get?_set_self]
      · rw [Fields.get?_set_of_ne _ _ (Ne.symm heq), if_neg heq, List.append_nil,
          h.get?_eq node hnode]

/-- **Run.**  Steps added one after the other are grouped. -/
theorem isGroupingOf_ofSteps (steps : List TraceStep) (hsteps : ∀ s ∈ steps, s.result.IsKnown) :
    (ofSteps steps).IsGroupingOf steps := by
  induction steps using List.reverseRecOn with
  | nil => exact ⟨rfl, fun _ _ => rfl⟩
  | append_singleton steps s ih =>
    rw [List.forall_mem_append] at hsteps
    rw [ofSteps, List.foldl_append]
    exact (ih hsteps.1).add (hsteps.2 s (List.mem_singleton_self s))

/-- A node is among the executions exactly if a step carries it. -/
theorem IsGroupingOf.mem_names_iff (h : m.IsGroupingOf steps) (node : String) :
    node ∈ Fields.names m ↔ node ≠ "" ∧ ∃ s ∈ steps, s.nodeId = node := by
  rw [h.names_eq, mem_distinct, List.mem_filter, List.mem_map, and_comm]
  simp

/-- What stands under a node is all its visits taken together. -/
theorem IsGroupingOf.eq_ofVisits (h : m.IsGroupingOf steps) {node : String} {e : Execution}
    (he : Fields.get? m node = some e) : e = .ofVisits (visitsTo node steps) := by
  have hnode : node ≠ "" :=
    ((h.mem_names_iff node).mp (List.mem_map_of_mem (Fields.mem_of_get? he))).1
  rw [h.get?_eq node hnode] at he
  split at he
  · cases he
  · exact (Option.some.inj he).symm

end Executions

/-! ### Known results -/

/-- The result that findings give a step, if they do, is a known one. -/
def Findings.HasKnownResult (f : Findings) : Prop := ∀ r, f.stepResult = some r → r.IsKnown

theorem Findings.hasKnownResult_of_eq_none {f : Findings} (h : f.stepResult = none) :
    f.HasKnownResult := by
  intro r hr
  rw [h] at hr
  cases hr

theorem Findings.hasKnownResult_of_eq_some {f : Findings} {r : StepResult}
    (h : f.stepResult = some r) (hr : r.IsKnown) : f.HasKnownResult := by
  intro r' hr'
  rw [h] at hr'
  exact Option.some.inj hr' ▸ hr

namespace Interpreter

open Findings

theorem hasKnownResult_readOrchestration (m : Orchestration) (c : Context) (r : HandlerResult) :
    (readOrchestration m c r).findings.HasKnownResult := by
  unfold readOrchestration
  dsimp only
  split
  · exact hasKnownResult_of_eq_none rfl
  · cases r.exception with
    | some message => split <;> exact hasKnownResult_of_eq_some (r := .error) rfl nofun
    | none =>
      split
      · exact hasKnownResult_of_eq_some (r := .success) rfl nofun
      · exact hasKnownResult_of_eq_none rfl

theorem hasKnownResult_readStepInvocation (r : HandlerResult) :
    (readStepInvocation r).HasKnownResult := by
  by_cases hpredicate : r.predicateResult = some "False"
  · exact hasKnownResult_of_eq_some (r := .skipped) (by simp [readStepInvocation, hpredicate]) nofun
  · exact hasKnownResult_of_eq_none (by simp [readStepInvocation, hpredicate])

theorem hasKnownResult_readExchange (handler : String) (r : HandlerResult) :
    (readExchange handler r).HasKnownResult := by
  unfold readExchange
  dsimp only
  split
  · exact hasKnownResult_of_eq_some (r := .success) rfl nofun
  · split
    · exact hasKnownResult_of_eq_none rfl
    · split <;> exact hasKnownResult_of_eq_none rfl

theorem hasKnownResult_readSubJourney (handler : String) (r : HandlerResult) :
    (readSubJourney handler r).HasKnownResult := by
  unfold readSubJourney
  dsimp only
  split
  · exact hasKnownResult_of_eq_none rfl
  · split <;> exact hasKnownResult_of_eq_none rfl

theorem hasKnownResult_readSelfAssertedValidation (r : HandlerResult) :
    (readSelfAssertedValidation r).HasKnownResult := by
  unfold readSelfAssertedValidation
  dsimp only
  split
  · exact hasKnownResult_of_eq_none rfl
  · split
    · exact hasKnownResult_of_eq_none rfl
    · exact hasKnownResult_of_eq_some (r := .error) rfl nofun

theorem hasKnownResult_readSession (handler : String) (r : HandlerResult) :
    (readSession handler r).HasKnownResult := by
  unfold readSession
  dsimp only
  split
  · exact hasKnownResult_of_eq_none rfl
  · split
    · exact hasKnownResult_of_eq_none rfl
    · split <;> exact hasKnownResult_of_eq_none rfl

theorem hasKnownResult_readErrorReport (handler : String) (r : HandlerResult) :
    (readErrorReport handler r).HasKnownResult := by
  unfold readErrorReport
  dsimp only
  split
  · split
    · exact hasKnownResult_of_eq_none rfl
    · split
      · exact hasKnownResult_of_eq_none rfl
      · exact hasKnownResult_of_eq_some (r := .error) rfl nofun
  · exact hasKnownResult_of_eq_none rfl

theorem hasKnownResult_readDisplayControl (handler : String) (r : HandlerResult) :
    (readDisplayControl handler r).HasKnownResult := by
  unfold readDisplayControl
  dsimp only
  split <;> exact hasKnownResult_of_eq_none rfl

theorem hasKnownResult_read (i : Interpreter) (c : Context) (r : HandlerResult) :
    (i.read c r).HasKnownResult := by
  cases i with
  | stepInvocation => exact hasKnownResult_readStepInvocation r
  | exchange => exact hasKnownResult_readExchange c.handler r
  | subJourney => exact hasKnownResult_readSubJourney c.handler r
  | selfAssertedValidation => exact hasKnownResult_readSelfAssertedValidation r
  | selfAssertedAction => exact hasKnownResult_of_eq_some (r := .success) rfl nofun
  | session => exact hasKnownResult_readSession c.handler r
  | errorReport => exact hasKnownResult_readErrorReport c.handler r
  | displayControl => exact hasKnownResult_readDisplayControl c.handler r
  | _ => exact hasKnownResult_of_eq_none rfl

/-- **All interpreters find known results.** -/
theorem hasKnownResult_of_interpret {i : Interpreter} {m : Orchestration} {c : Context}
    {outcome : Interpretation} (h : i.interpret m c = some outcome) :
    outcome.findings.HasKnownResult := by
  unfold interpret at h
  split at h
  · cases h
  · split at h
    · obtain rfl := Option.some.inj h
      exact hasKnownResult_of_eq_none rfl
    · split at h
      · obtain rfl := Option.some.inj h
        exact hasKnownResult_readOrchestration m c _
      · obtain rfl := Option.some.inj h
        exact hasKnownResult_read i c _

end Interpreter

theorem Registry.hasKnownResult_of_interpret {r : Registry} {c : Context} {f : Findings}
    {moved : Option Int} (h : (r.interpret c).2 = .done f moved) : f.HasKnownResult := by
  unfold Registry.interpret at h
  split at h
  split at h
  · cases h
  · split at h
    · cases h
    · next houtcome =>
      obtain ⟨rfl, -⟩ := Registry.Reading.done.inj h
      exact Interpreter.hasKnownResult_of_interpret houtcome

namespace Rebuilding

variable {registry : Registry} {settings : TraceSettings} {logs : List LogInput}

theorem hasKnownResult_of_mem_found {t : Rebuilding} {past : List Occurrence} {f : Findings}
    (h : f ∈ t.found past) : f.HasKnownResult := by
  obtain ⟨earlier, o, later, -, hf⟩ := (mem_along_iff _).mp h
  obtain ⟨-, log, g, moved, -, hread⟩ := found?_eq_some (Option.mem_toList.mp hf)
  exact Registry.hasKnownResult_of_interpret hread

theorem IsVisit.hasKnownResult {past : List Occurrence} {number : Int}
    {before during : List Findings} (h : IsVisit registry settings logs past number before during) :
    ∀ f ∈ during, f.HasKnownResult := by
  obtain ⟨hfound, hcreate⟩ := h
  rintro f hf
  rcases List.mem_cons.mp hf with rfl | hf
  · obtain ⟨-, log, g, moved, -, hread⟩ := found?_eq_some hfound
    exact Registry.hasKnownResult_of_interpret hread
  · exact hasKnownResult_of_mem_found (List.takeWhile_subset _ hf)

theorem isKnown_of_verdict? {f : Findings} (h : f.HasKnownResult) {v : Verdict}
    (hv : f.verdict? = some v) : v.result.IsKnown := by
  unfold Findings.verdict? at hv
  have hplain {v : Verdict} (hv : f.stepResult.map .plain = some v) : v.result.IsKnown := by
    obtain ⟨r, hr, rfl⟩ := Option.map_eq_some_iff.mp hv
    exact h r hr
  split at hv
  · split at hv
    · obtain rfl := Option.some.inj hv
      exact nofun
    · exact hplain hv
  · exact hplain hv

/-- What is filed has a known result. -/
theorem isKnown_of_verdictsOn {s : TraceStep} {verdicts : List Verdict}
    (h : VerdictsOn registry settings logs s verdicts) (hjudged : s.IsJudged verdicts) :
    s.result.IsKnown := by
  have hduring {during : List Findings} (hknown : ∀ f ∈ during, f.HasKnownResult) :
      ∀ v ∈ during.filterMap Findings.verdict?, v.result.IsKnown := by
    intro v hv
    obtain ⟨f, hf, hverdict⟩ := List.mem_filterMap.mp hv
    exact isKnown_of_verdict? (hknown f hf) hverdict
  have hall : ∀ v ∈ verdicts, v.result.IsKnown := by
    cases h with
    | @closed past rest o _ before during hrun hfiled hvisit =>
      rintro v hv
      rcases List.mem_append.mp hv with hv | hv
      · exact hduring hvisit.hasKnownResult v hv
      · cases o with
        | fatal log message =>
          rw [List.mem_singleton.mp hv]
          exact nofun
        | _ => cases hv
    | last hfiled hvisit => exact hduring hvisit.hasKnownResult
    | fatal hrun hfiled =>
      rintro v hv
      rw [List.mem_singleton.mp hv]
      exact nofun
  rw [hjudged.result]
  cases hlast : verdicts.getLast? with
  | none => exact nofun
  | some v => exact hall v (List.mem_of_getLast? hlast)

/-- **The steps of a trace have known results.** -/
theorem isKnown_of_mem_steps {passes : List Pass} {s : TraceStep}
    (h : s ∈ (rebuildWith registry passes settings logs).2.steps) : s.result.IsKnown := by
  have hsteps := outline_steps_rebuildWith registry passes settings logs
  have hfolded : (behind registry settings logs (occurrences settings logs)).close.steps =
      (folded registry settings logs).map Folded.step :=
    (congrArg Prod.fst (book_close_behind registry settings logs)).trans (steps_foldl_file rfl _)
  rw [hfolded] at hsteps
  obtain ⟨s', hs', heq⟩ := List.mem_map.mp (hsteps ▸ List.mem_map_of_mem h)
  obtain ⟨p, hp, rfl⟩ := List.mem_map.mp hs'
  rw [← (TraceStep.outline_eq_iff.mp heq).2.1]
  -- a result of another kind would be that of one of the steps that were folded
  intro name hother
  obtain ⟨u, hu, hresult⟩ := p.exists_of_step (P := fun s => s.result = .other name)
    (fun a again hmerge => by
      unfold TraceStep.absorb StepResult.merge at hmerge
      dsimp only at hmerge
      split at hmerge
      · exact Or.inr hmerge
      · exact Or.inl hmerge) hother
  obtain ⟨x, hx, rfl⟩ | ⟨q, hq, -⟩ := mem_of_mem_folds hp hu
  · obtain ⟨verdicts, hon, hjudged⟩ := exists_verdictsOn hx
    exact isKnown_of_verdictsOn hon hjudged name hresult
  · cases hq

end Rebuilding

/-! ### The executions of a trace -/

/-- Whatever is done to the steps, the executions are those of what is left of them. -/
theorem executions_eq_ofSteps (registry : Registry) (passes : List Pass)
    (settings : TraceSettings) (logs : List LogInput) :
    (rebuildWith registry passes settings logs).2.executions =
      Executions.ofSteps (rebuildWith registry passes settings logs).2.steps := by
  unfold rebuildWith
  split <;> rfl

/-- **The executions of a trace are its steps by their nodes.**  There is one for every node that
a step carries, in the order in which the nodes came first.  Each has the numbers of all steps of
its node in their order, counts them, and has the gravest of their results. -/
theorem executions_group_steps (registry : Registry) (passes : List Pass)
    (settings : TraceSettings) (logs : List LogInput) :
    let trace := (rebuildWith registry passes settings logs).2
    Fields.names trace.executions =
        distinct ((trace.steps.map TraceStep.nodeId).filter fun node => !node.isEmpty) ∧
      (∀ node, node ∈ Fields.names trace.executions ↔
        node ≠ "" ∧ ∃ s ∈ trace.steps, s.nodeId = node) ∧
      ∀ node e, Fields.get? trace.executions node = some e →
        e.sequences = (visitsTo node trace.steps).map TraceStep.sequence ∧
          e.visits = (visitsTo node trace.steps).length ∧
          e.status = StepResult.gravest ((visitsTo node trace.steps).map TraceStep.result) := by
  intro trace
  have hgrouping : trace.executions.IsGroupingOf trace.steps :=
    executions_eq_ofSteps registry passes settings logs ▸
      Executions.isGroupingOf_ofSteps trace.steps fun s hs => Rebuilding.isKnown_of_mem_steps hs
  refine ⟨hgrouping.names_eq, hgrouping.mem_names_iff, fun node e he => ?_⟩
  rw [hgrouping.eq_ofVisits he]
  exact ⟨rfl, rfl, rfl⟩

end TrustFramework
