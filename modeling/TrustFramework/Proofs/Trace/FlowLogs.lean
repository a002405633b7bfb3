import TrustFramework.Proofs.Trace.Flows

/-!
# The logs of a flow

The logs of a flow are looked up by the identifiers that the flow lists, not by its correlation.
Nothing keeps the recorder from giving one identifier to logs of two sessions, and then the logs of
a flow have a stranger among them.

## Main definitions

* `Flow.HasOwnIds` — no log of another session has the identifier of a log of the flow.

## Main results

* `logsOfFlow_eq` — the logs of a flow are those that share an identifier with one of its session.
* `logs_of_flow_iff` — **they are the logs of the session exactly if the flow has identifiers of its
  own.**
-/

namespace TrustFramework

/-- No log of another session has the identifier of a log of the flow. -/
def Flow.HasOwnIds (logs : List LogInput) (f : Flow) : Prop :=
  ∀ own ∈ logs, own.correlationId = f.correlationId →
    ∀ other ∈ logs, other.id = own.id → other.correlationId = f.correlationId

section

variable {settings : TraceSettings} {logs : List LogInput}

/-- What flows are called does not depend on the settings. -/
theorem exists_id_flowsOf {f : Flow} (hf : f ∈ flowsOf settings logs) (settings' : TraceSettings) :
    ∃ g ∈ flowsOf settings' logs, g.id = f.id := by
  refine List.mem_map.mp ?_
  rw [id_flowsOf, ← id_flowsOf settings]
  exact List.mem_map_of_mem hf

/-- The name of a flow leads to the flow of its session. -/
theorem find?_id_flowsOf {f : Flow} (hf : f ∈ flowsOf settings logs) (settings' : TraceSettings) :
    ∃ g ∈ flowsOf settings' logs, (flowsOf settings' logs).find? (fun g => g.id = f.id) = some g ∧
      g.correlationId = f.correlationId := by
  cases hfind : (flowsOf settings' logs).find? fun g => g.id = f.id with
  | none =>
    obtain ⟨g, hg, hname⟩ := exists_id_flowsOf hf settings'
    exact absurd hname (by simpa using List.find?_eq_none.mp hfind g hg)
  | some g =>
    have hmem : g ∈ flowsOf settings' logs := List.mem_of_find?_eq_some hfind
    have hname : g.id = f.id := by simpa using List.find?_some hfind
    refine ⟨g, hmem, rfl, ?_⟩
    obtain ⟨id, index, -, rfl⟩ := exists_of_mem_flowsOf hf
    obtain ⟨id', index', -, rfl⟩ := exists_of_mem_flowsOf hmem
    exact (numbered_inj.mp hname).1

theorem mem_logIds {f : Flow} (hf : f ∈ flowsOf settings logs) {name : String} :
    name ∈ f.logIds ↔ ∃ own ∈ logs, own.correlationId = f.correlationId ∧ own.id = name := by
  obtain ⟨id, index, -, rfl⟩ := exists_of_mem_flowsOf hf
  change name ∈ (correlated logs id).map LogInput.id ↔ ∃ own ∈ logs, own.correlationId = id ∧ _
  simp [(correlated_perm logs id).mem_iff, and_assoc]

/-- **The logs of a flow are those that share an identifier with one of its session.** -/
theorem logsOfFlow_eq {f : Flow} (hf : f ∈ flowsOf settings logs) (settings' : TraceSettings) :
    logsOfFlow logs f.id (flowsOf settings' logs) = logs.filter fun log =>
      ∃ own ∈ logs, own.correlationId = f.correlationId ∧ own.id = log.id := by
  obtain ⟨g, hg, hfind, hcorrelation⟩ := find?_id_flowsOf hf settings'
  rw [logsOfFlow, hfind]
  refine List.filter_congr fun log _ => ?_
  rw [List.contains_eq_mem, ← hcorrelation]
  exact decide_eq_decide.mpr (mem_logIds hg)

end

/-- **The logs of a flow are those of its session exactly if the flow has identifiers of its own.**
Whatever the settings by which the flows are made anew, they are the logs that share an identifier
with one of the session, in the order given; and what is no flow has no logs. -/
theorem logs_of_flow_iff (settings settings' : TraceSettings) (logs : List LogInput) :
    (∀ f ∈ flowsOf settings logs,
      logsOfFlow logs f.id (flowsOf settings' logs) = logs.filter (fun log =>
          ∃ own ∈ logs, own.correlationId = f.correlationId ∧ own.id = log.id) ∧
        (logsOfFlow logs f.id (flowsOf settings' logs) =
          logs.filter (fun log => log.correlationId = f.correlationId) ↔ f.HasOwnIds logs)) ∧
      ∀ id, (∀ f ∈ flowsOf settings logs, f.id ≠ id) →
        logsOfFlow logs id (flowsOf settings' logs) = [] := by
  refine ⟨fun f hf => ⟨logsOfFlow_eq hf settings', ?_⟩, fun id hid => ?_⟩
  · rw [logsOfFlow_eq hf]
    constructor
    · intro heq own hown hsession other hother hid
      have hmem : other ∈ logs.filter fun log => log.correlationId = f.correlationId := by
        rw [← heq, List.mem_filter, decide_eq_true_iff]
        exact ⟨hother, own, hown, hsession, hid.symm⟩
      exact of_decide_eq_true (List.mem_filter.mp hmem).2
    · intro hown
      refine List.filter_congr fun log hlog => decide_eq_decide.mpr ⟨?_, fun h => ⟨log, hlog, h, rfl⟩⟩
      rintro ⟨own, hmem, hsession, hid⟩
      exact hown own hmem hsession log hlog hid.symm
  · have hnone : (flowsOf settings' logs).find? (fun f => f.id = id) = none := by
      refine List.find?_eq_none.mpr fun g hg => ?_
      obtain ⟨f, hf, hname⟩ := exists_id_flowsOf hg settings
      simpa [hname] using hid f hf
    rw [logsOfFlow, hnone]

open Rebuilding in
/-- Two sessions have a log `x` each, and the flow of the first one has the log of the other. -/
theorem logs_of_flow_shared :
    let own := beginning "x" (after 0)
    let other := { beginning "x" (after 1000) with correlationId := "D" }
    let flows := flowsOf {} [own, other]
    ∃ f ∈ flows, f.correlationId = own.correlationId ∧
      logsOfFlow [own, other] f.id flows = [own, other] ∧
      [own, other].filter (fun log => log.correlationId = f.correlationId) = [own] := by
  intro own other flows
  obtain ⟨f, hf, hsession⟩ : ∃ f ∈ flows, f.correlationId = own.correlationId := by
    refine List.mem_map.mp ?_
    rw [correlationId_flowsOf, mem_correlations]
    exact ⟨own, List.mem_cons_self, rfl⟩
  refine ⟨f, hf, hsession, ?_, by rw [hsession]; rfl⟩
  rw [logsOfFlow_eq hf, hsession]
  refine List.filter_eq_self.mpr fun log hlog => decide_eq_true ⟨own, List.mem_cons_self, rfl, ?_⟩
  obtain rfl | rfl : log = own ∨ log = other := by simpa using hlog
  · rfl
  · rfl

end TrustFramework
