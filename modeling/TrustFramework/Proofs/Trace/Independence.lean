import TrustFramework.Proofs.Sorting
import TrustFramework.Proofs.Trace.Flows

/-!
# Flows on their own

The flows of many sessions are made in turn, all with the same registry, but the flow of one session
is the same as if its logs were all there are.  Sorting logs and picking those of a session can be
done in either order, since sorting keeps logs of one moment in the order in which they came; and
what the registry traced before does not matter.

## Main results

* `flowsOf_filter` — the logs of a session make one flow.
* `flow_of_logs_alone` — **the flow of a session is that of its logs alone.**
-/

namespace TrustFramework

/-! ### The logs of a session -/

section

variable (logs : List LogInput)

theorem sorted_filter (p : LogInput → Bool) :
    LogInput.sorted (logs.filter p) = (LogInput.sorted logs).filter p :=
  @mergeSort_filter _ LogInput.le (fun _ _ _ hab hbc => LogInput.le_trans hab hbc)
    LogInput.le_total p logs

theorem sorted_sorted : LogInput.sorted (LogInput.sorted logs) = LogInput.sorted logs :=
  List.mergeSort_of_pairwise (pairwise_le_sorted logs)

/-- The trace of sorted logs is that of the logs. -/
theorem rebuildWith_sorted (registry : Registry) (passes : List Pass) (settings : TraceSettings) :
    rebuildWith registry passes settings (LogInput.sorted logs) =
      rebuildWith registry passes settings logs := by
  have hsupported : supportedLogs settings (LogInput.sorted logs) = supportedLogs settings logs := by
    rw [supportedLogs, supportedLogs, sorted_filter, sorted_filter, sorted_sorted]
  rw [rebuildWith, hsupported, rebuildWith]

end

/-! ### The flow of a session -/

section

variable {logs : List LogInput} {id : String}

/-- The logs of a session in order are its logs, picked and sorted. -/
theorem correlated_eq_sorted_filter (logs : List LogInput) (id : String) :
    correlated logs id = LogInput.sorted (logs.filter fun log => log.correlationId = id) :=
  (sorted_filter logs _).symm

theorem correlated_filter (logs : List LogInput) (id : String) :
    correlated (logs.filter fun log => log.correlationId = id) id = correlated logs id := by
  rw [correlated, sorted_filter, List.filter_filter, correlated]
  simp only [Bool.and_self]

theorem correlations_filter (h : id ∈ correlations logs) :
    correlations (logs.filter fun log => log.correlationId = id) = [id] := by
  refine List.perm_singleton.mp ((List.perm_ext_iff_of_nodup (nodup_correlations _)
    (List.nodup_singleton id)).mpr fun other => ?_)
  rw [mem_correlations, List.mem_singleton]
  constructor
  · rintro ⟨log, hlog, rfl⟩
    exact of_decide_eq_true (List.mem_filter.mp hlog).2
  · rintro rfl
    obtain ⟨log, hlog, hid⟩ := mem_correlations.mp h
    exact ⟨log, List.mem_filter.mpr ⟨hlog, by simpa using hid⟩, hid⟩

/-- The logs of a session make one flow, at the first place. -/
theorem flowsOf_filter (settings : TraceSettings) (h : id ∈ correlations logs) :
    flowsOf settings (logs.filter fun log => log.correlationId = id) =
      [Flow.ofLogs settings 0 id ((correlated logs id).headD default) (correlated logs id)] := by
  rw [flowsOf_eq, correlations_filter h]
  simp only [List.zipIdx_cons, List.zipIdx_nil, List.map_cons, List.map_nil, correlated_filter]

theorem exists_ofLogs_mem_flowsOf (settings : TraceSettings) (h : id ∈ correlations logs) :
    ∃ index, Flow.ofLogs settings index id ((correlated logs id).headD default)
      (correlated logs id) ∈ flowsOf settings logs := by
  rw [← List.zipIdx_map_fst 0 (correlations logs)] at h
  obtain ⟨⟨id, index⟩, hplace, rfl⟩ := List.mem_map.mp h
  refine ⟨index, ?_⟩
  rw [flowsOf_eq]
  exact List.mem_map.mpr ⟨(id, index), hplace, rfl⟩

/-- The steps of a flow are counted in the trace of its logs, whatever was traced before. -/
theorem stepCount_ofLogs {settings : TraceSettings} {r : Registry} (hr : r.IsFor settings)
    (index : Nat) (first : LogInput) (logs : List LogInput) (id : String) :
    (Flow.ofLogs settings index id first (correlated logs id)).stepCount =
      (rebuildWith r Pass.standard settings
        (logs.filter fun log => log.correlationId = id)).2.steps.length := by
  rw [trace_eq_rebuild hr, rebuild, ← rebuildWith_sorted, ← correlated_eq_sorted_filter]
  rfl

end

end TrustFramework
