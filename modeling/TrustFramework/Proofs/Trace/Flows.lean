import Mathlib.Data.List.Induction
import Mathlib.Data.List.Nodup
import TrustFramework.Proofs.Naming
import TrustFramework.Proofs.Policy.Layering
import TrustFramework.Proofs.Trace.Repetition
import TrustFramework.Proofs.Trace.Reuse
import TrustFramework.Trace.Flow

/-!
# How logs fall into flows

Sorted logs are grouped by their correlations, each group in the order of the logs and the groups
in the order of their first logs.  Every log is in one group, and every group is a flow.  A flow is
named after its correlation and its place, and the places tell flows apart whatever the
correlations are called.

## Main definitions

* `LogInput.IsNotAfter` — the order in which logs are taken.
* `correlated` — the logs of a correlation in order.
* `Flow.IsOf` — what a flow says about the logs of its correlation.

## Main results

* `byCorrelation_eq` — logs are grouped by the correlations that occur.
* `pairwise_head?_filter` — groups are in the order of their first members.
* `flowsOf_eq` — there is one flow for every correlation.
* `flows_partition_logs` — **flows are a partition of the logs.**
-/

namespace TrustFramework

/-! ### Grouping -/

section

variable {α : Type}

theorem get?_map_keys (f : String → α) (keys : List String) (key : String) :
    Fields.get? (keys.map fun k => (k, f k)) key = if key ∈ keys then some (f key) else none := by
  induction keys with
  | nil => rfl
  | cons k keys ih =>
    by_cases hk : k = key
    · simp [Fields.get?, hk]
    · simp [Fields.get?, hk, ih, Ne.symm hk]

/-- Setting what stands under one of some keys changes it for this one, or adds the key. -/
theorem set_map_keys {f g : String → α} {keys : List String} (hkeys : keys.Nodup) (key : String)
    (hother : ∀ k, k ≠ key → g k = f k) :
    Fields.set (keys.map fun k => (k, f k)) key (g key) =
      (addNew keys key).map fun k => (k, g k) := by
  induction keys with
  | nil => rfl
  | cons k keys ih =>
    obtain ⟨hk, hkeys⟩ := List.nodup_cons.mp hkeys
    by_cases heq : k = key
    · subst heq
      have hrest : keys.map (fun k' => (k', f k')) = keys.map fun k' => (k', g k') :=
        List.map_congr_left fun k' hk' => by rw [hother k' fun h => hk (h ▸ hk')]
      simp [Fields.set, addNew, hrest]
    · have hadd : addNew (k :: keys) key = k :: addNew keys key := by
        simp only [addNew, List.contains_cons, beq_eq_false_iff_ne.mpr (Ne.symm heq), Bool.false_or]
        split <;> rfl
      simp [Fields.set, heq, hadd, ih hkeys, hother k heq]

end

/-- **Logs are grouped by the correlations that occur**, each group in the order of the logs. -/
theorem byCorrelation_eq (logs : List LogInput) :
    byCorrelation logs = (distinct (logs.map LogInput.correlationId)).map fun id =>
      (id, logs.filter fun log => log.correlationId = id) := by
  induction logs using List.reverseRecOn with
  | nil => rfl
  | append_singleton logs log ih =>
    have hstep : byCorrelation (logs ++ [log]) =
        Fields.alter (byCorrelation logs) log.correlationId
          fun known => known.getD [] ++ [log] := by
      rw [byCorrelation, List.foldl_append]
      rfl
    -- a correlation that did not occur before has no logs yet
    have hknown : (Fields.get? (byCorrelation logs) log.correlationId).getD [] =
        logs.filter fun other => other.correlationId = log.correlationId := by
      rw [ih, get?_map_keys]
      split
      · rfl
      · next hnew =>
        rw [mem_distinct, List.mem_map] at hnew
        refine (List.filter_eq_nil_iff.mpr fun other hother => ?_).symm
        simpa using fun heq => hnew ⟨other, hother, heq⟩
    have hgroup : (logs.filter fun other => other.correlationId = log.correlationId) ++ [log] =
        (logs ++ [log]).filter fun other => other.correlationId = log.correlationId := by
      simp [List.filter_append]
    rw [hstep, Fields.alter, hknown, hgroup, ih, List.map_append, List.map_singleton,
      distinct_append_singleton]
    refine set_map_keys
      (g := fun id => (logs ++ [log]).filter fun other => other.correlationId = id)
      (nodup_addAllNew List.nodup_nil _) log.correlationId fun id hid => ?_
    simp [List.filter_append, Ne.symm hid]

/-- Groups by all keys that occur have every item once. -/
theorem flatMap_filter_perm {α : Type} (key : α → String) {keys : List String}
    (hkeys : keys.Nodup) {items : List α} (hall : ∀ x ∈ items, key x ∈ keys) :
    (keys.flatMap fun k => items.filter fun x => key x = k).Perm items := by
  induction keys generalizing items with
  | nil =>
    obtain rfl : items = [] := List.eq_nil_iff_forall_not_mem.mpr fun x hx => nomatch hall x hx
    rfl
  | cons k keys ih =>
    obtain ⟨hk, hkeys⟩ := List.nodup_cons.mp hkeys
    -- the other groups are those of the items that are not in the first
    have hothers : (keys.flatMap fun k' => items.filter fun x => key x = k') =
        keys.flatMap fun k' =>
          (items.filter fun x => !decide (key x = k)).filter fun x => key x = k' := by
      refine List.flatMap_congr fun k' hk' => ?_
      rw [List.filter_filter]
      refine List.filter_congr fun x _ => ?_
      have hne : k' ≠ k := fun h => hk (h ▸ hk')
      by_cases hx : key x = k' <;> simp [hx, hne]
    have hlater : ∀ x ∈ items.filter fun x => !decide (key x = k), key x ∈ keys := by
      intro x hx
      obtain ⟨hx, hne⟩ := List.mem_filter.mp hx
      exact (List.mem_cons.mp (hall x hx)).resolve_left (by simpa using hne)
    have hrest := ih hkeys hlater
    rw [List.flatMap_cons, hothers]
    exact (hrest.append_left _).trans (List.filter_append_perm _ _)

/-- Of items in order, the groups are in the order of their first members. -/
theorem pairwise_head?_filter {α : Type} {le : α → α → Prop} (key : α → String) {items : List α}
    (h : items.Pairwise le) :
    (distinct (items.map key)).Pairwise fun k k' =>
      ∀ a ∈ (items.filter fun x => key x = k).head?, ∀ b ∈ (items.filter fun x => key x = k').head?,
        le a b := by
  induction items using List.reverseRecOn with
  | nil => exact List.Pairwise.nil
  | append_singleton items x ih =>
    obtain ⟨hitems, -, hx⟩ := List.pairwise_append.mp h
    -- the first member of a group that is there stays the first
    have hfirst : ∀ k ∈ distinct (items.map key),
        ((items ++ [x]).filter fun y => key y = k).head? =
          (items.filter fun y => key y = k).head? := by
      intro k hk
      obtain ⟨y, hy, rfl⟩ := List.mem_map.mp (mem_distinct.mp hk)
      have hne : (items.filter fun z => key z = key y) ≠ [] :=
        List.ne_nil_of_mem (List.mem_filter.mpr ⟨hy, by simp⟩)
      rw [List.filter_append, List.head?_append_of_ne_nil _ hne]
    have hbefore : (distinct (items.map key)).Pairwise fun k k' =>
        ∀ a ∈ ((items ++ [x]).filter fun y => key y = k).head?,
          ∀ b ∈ ((items ++ [x]).filter fun y => key y = k').head?, le a b := by
      refine (ih hitems).imp_of_mem fun {k k'} hk hk' hle => ?_
      rwa [hfirst k hk, hfirst k' hk']
    rw [List.map_append, List.map_singleton, distinct_append_singleton, addNew]
    split
    · exact hbefore
    · next hnew =>
      refine List.pairwise_append.mpr ⟨hbefore, List.pairwise_singleton _ _, ?_⟩
      intro k hk k' hk' a ha b hb
      obtain rfl := List.mem_singleton.mp hk'
      rw [hfirst k hk] at ha
      have hmem : a ∈ items := (List.mem_filter.mp (List.mem_of_head? ha)).1
      have hnone : (items.filter fun y => key y = key x) = [] := by
        refine List.filter_eq_nil_iff.mpr fun y hy => ?_
        simp only [List.contains_iff_mem, mem_distinct, List.mem_map, not_exists, not_and] at hnew
        simpa using hnew y hy
      rw [List.filter_append, hnone] at hb
      obtain rfl : x = b := by simpa using hb
      exact hx a hmem x (List.mem_singleton_self x)

/-! ### Flows -/

namespace LogInput

/-- Logs are taken by their times, and those of one time by their identifiers. -/
def IsNotAfter (a b : LogInput) : Prop :=
  a.timestamp.instant < b.timestamp.instant ∨
    a.timestamp.instant = b.timestamp.instant ∧ a.id ≤ b.id

theorem pairwise_isNotAfter_sorted (logs : List LogInput) : (sorted logs).Pairwise IsNotAfter :=
  (pairwise_le_sorted logs).imp fun {a b} => (le_iff a b).mp

end LogInput

/-- The logs of a correlation in order. -/
def correlated (logs : List LogInput) (id : String) : List LogInput :=
  (LogInput.sorted logs).filter fun log => log.correlationId = id

/-- The correlations of logs, in the order of the first logs of each. -/
def correlations (logs : List LogInput) : List String :=
  distinct ((LogInput.sorted logs).map LogInput.correlationId)

section

variable {logs : List LogInput}

theorem sorted_perm (logs : List LogInput) : (LogInput.sorted logs).Perm logs :=
  List.mergeSort_perm logs LogInput.le

theorem mem_correlations {id : String} :
    id ∈ correlations logs ↔ ∃ log ∈ logs, log.correlationId = id := by
  rw [correlations, mem_distinct, List.mem_map]
  exact exists_congr fun log => and_congr_left fun _ => (sorted_perm logs).mem_iff

theorem nodup_correlations (logs : List LogInput) : (correlations logs).Nodup :=
  nodup_addAllNew List.nodup_nil _

theorem correlated_perm (logs : List LogInput) (id : String) :
    (correlated logs id).Perm (logs.filter fun log => log.correlationId = id) :=
  (sorted_perm logs).filter _

theorem pairwise_correlated (logs : List LogInput) (id : String) :
    (correlated logs id).Pairwise LogInput.IsNotAfter :=
  (LogInput.pairwise_isNotAfter_sorted logs).filter _

/-- Correlations are in the order of their first logs. -/
theorem pairwise_head?_correlated (logs : List LogInput) :
    (correlations logs).Pairwise fun id id' =>
      ∀ a ∈ (correlated logs id).head?, ∀ b ∈ (correlated logs id').head?, a.IsNotAfter b :=
  pairwise_head?_filter LogInput.correlationId (LogInput.pairwise_isNotAfter_sorted logs)

theorem correlated_ne_nil {id : String} (h : id ∈ correlations logs) : correlated logs id ≠ [] := by
  obtain ⟨log, hlog, hid⟩ := List.mem_map.mp (mem_distinct.mp h)
  exact List.ne_nil_of_mem (List.mem_filter.mpr ⟨hlog, by simpa using hid⟩)

/-- The logs of all correlations are the logs. -/
theorem flatMap_correlated_perm (logs : List LogInput) :
    ((correlations logs).flatMap (correlated logs)).Perm logs := by
  refine (flatMap_filter_perm LogInput.correlationId (nodup_correlations logs)
    fun log hlog => ?_).trans (sorted_perm logs)
  exact mem_distinct.mpr (List.mem_map_of_mem hlog)

/-- Groups that are traced one after the other are traced like each on its own. -/
theorem Flow.inTurn_eq {settings : TraceSettings} {r : Registry} (h : r.IsFor settings)
    (groups : List ((String × List LogInput) × Nat)) :
    inTurn settings r groups = groups.filterMap fun ((id, group), index) =>
      group.head?.map fun first => ofLogs settings index id first group := by
  induction groups generalizing r with
  | nil => rfl
  | cons entry groups ih =>
    obtain ⟨⟨id, group⟩, index⟩ := entry
    change (group.head?.map fun first => ofTrace (rebuildWith r Pass.standard settings group).2
      index id first group).toList ++
        inTurn settings (rebuildWith r Pass.standard settings group).1 groups = _
    rw [trace_eq_rebuild h group, ih (h.rebuildWith _ group), List.filterMap_cons]
    cases group <;> rfl

/-- **There is one flow for every correlation.** -/
theorem flowsOf_eq (settings : TraceSettings) (logs : List LogInput) :
    flowsOf settings logs = (correlations logs).zipIdx.map fun (id, index) =>
      Flow.ofLogs settings index id ((correlated logs id).headD default) (correlated logs id) := by
  rw [flowsOf, Flow.inTurn_eq (Registry.isFor_standard settings), byCorrelation_eq,
    List.zipIdx_map, List.filterMap_map]
  refine (List.filterMap_congr ?_).trans (congrFun List.filterMap_eq_map _)
  rintro ⟨id, index⟩ hplace
  obtain ⟨first, rest, hlogs⟩ := List.exists_cons_of_ne_nil
    (correlated_ne_nil (List.fst_mem_of_mem_zipIdx hplace))
  simp only [Function.comp_apply, Prod.map_apply, id_eq]
  rw [show (LogInput.sorted logs).filter (fun log => log.correlationId = id) = first :: rest from
    hlogs, hlogs]
  rfl

end

namespace Flow

/-- A flow is that of the logs of its correlation, which in order are `first` and the rest. -/
structure IsOf (logs : List LogInput) (f : Flow) (first : LogInput) (rest : List LogInput) :
    Prop where
  /-- No log of the correlation is left out, and none of another is put in. -/
  perm : (first :: rest).Perm (logs.filter fun log => log.correlationId = f.correlationId)
  ordered : (first :: rest).Pairwise LogInput.IsNotAfter
  logIds_eq : f.logIds = (first :: rest).map LogInput.id
  start_eq : f.start = first.timestamp
  finish_eq : f.finish = (rest.getLastD first).timestamp

/-- Flows are taken by their first logs. -/
def IsNotAfter (f g : Flow) : Prop :=
  f.start.instant < g.start.instant ∨
    f.start.instant = g.start.instant ∧ f.logIds.headD "" ≤ g.logIds.headD ""

variable {logs : List LogInput}

theorem IsOf.start_le_finish {f : Flow} {first : LogInput} {rest : List LogInput}
    (h : f.IsOf logs first rest) : f.start.instant ≤ f.finish.instant := by
  rw [h.start_eq, h.finish_eq]
  cases hlast : rest.getLast? with
  | none =>
    rw [List.getLast?_eq_none_iff.mp hlast]
    exact Int.le_refl _
  | some last =>
    rw [List.getLastD_eq_getLast?, hlast]
    obtain hlt | ⟨heq, -⟩ := (List.pairwise_cons.mp h.ordered).1 last (List.mem_of_getLast? hlast)
    · exact Int.le_of_lt hlt
    · exact Int.le_of_eq heq

/-- The flow of a correlation. -/
theorem exists_isOf (settings : TraceSettings) (index : Nat) {id : String}
    (h : id ∈ correlations logs) :
    ∃ first rest, correlated logs id = first :: rest ∧
      (ofLogs settings index id ((correlated logs id).headD default) (correlated logs id)).IsOf
        logs first rest := by
  obtain ⟨first, rest, hlogs⟩ := List.exists_cons_of_ne_nil (correlated_ne_nil h)
  refine ⟨first, rest, hlogs, ?_⟩
  have hperm := correlated_perm logs id
  have hordered := pairwise_correlated logs id
  rw [hlogs] at hperm hordered ⊢
  exact ⟨hperm, hordered, rfl, rfl, by cases rest <;> rfl⟩

/-- Only a window that is no span of time makes a flow overlong. -/
theorem longestSpan_lt_of_overlong {settings : TraceSettings} {index : Nat} {id : String}
    {first : LogInput} {group : List LogInput}
    (h : (ofLogs settings index id first group).overlong = true) :
    Rebuilding.longestSpan < settings.dedupWindow.count := by
  replace h : (rebuild settings group).overlong = true := h
  rw [rebuild] at h
  by_cases hsupported : supportedLogs settings group = []
  · rw [rebuildWith, hsupported] at h
    cases h
  · rw [rebuildWith_eq hsupported] at h
    have hwindow : _ = settings.dedupWindow :=
      (congrArg (fun book => book.2.2) (Rebuilding.book_close_behind
        (Registry.standard settings.orchestrationReset) settings group)).trans
        (Rebuilding.window_foldl_file _ _)
    have hspan := (Bool.and_eq_true_iff.mp h).2
    rw [← hwindow]
    exact of_decide_eq_true hspan

end Flow

section

variable (settings : TraceSettings) (logs : List LogInput)

/-- The flow of a correlation that occurs, and its place among all flows. -/
theorem exists_of_mem_flowsOf {settings : TraceSettings} {logs : List LogInput} {f : Flow}
    (h : f ∈ flowsOf settings logs) : ∃ id index, id ∈ correlations logs ∧
      f = Flow.ofLogs settings index id ((correlated logs id).headD default)
        (correlated logs id) := by
  rw [flowsOf_eq] at h
  obtain ⟨⟨id, index⟩, hplace, rfl⟩ := List.mem_map.mp h
  exact ⟨id, index, List.fst_mem_of_mem_zipIdx hplace, rfl⟩

theorem correlationId_flowsOf :
    (flowsOf settings logs).map Flow.correlationId = correlations logs := by
  rw [flowsOf_eq, List.map_map]
  exact List.zipIdx_map_fst 0 (correlations logs)

theorem logIds_flowsOf : ((flowsOf settings logs).flatMap Flow.logIds).Perm
    (logs.map LogInput.id) := by
  have hids : (flowsOf settings logs).flatMap Flow.logIds =
      ((correlations logs).flatMap (correlated logs)).map LogInput.id := by
    conv_rhs => rw [← List.zipIdx_map_fst 0 (correlations logs), List.flatMap_map, List.map_flatMap]
    rw [flowsOf_eq, List.flatMap_map]
    rfl
  rw [hids]
  exact (flatMap_correlated_perm logs).map LogInput.id

/-- Flows are in the order of their first logs. -/
theorem pairwise_flowsOf : (flowsOf settings logs).Pairwise Flow.IsNotAfter := by
  have hfirsts := pairwise_head?_correlated logs
  rw [← List.zipIdx_map_fst 0 (correlations logs), List.pairwise_map] at hfirsts
  rw [flowsOf_eq, List.pairwise_map]
  refine hfirsts.imp_of_mem ?_
  rintro ⟨id, index⟩ ⟨id', index'⟩ hid hid' hle
  obtain ⟨first, rest, hlogs⟩ := List.exists_cons_of_ne_nil
    (correlated_ne_nil (List.fst_mem_of_mem_zipIdx hid))
  obtain ⟨first', rest', hlogs'⟩ := List.exists_cons_of_ne_nil
    (correlated_ne_nil (List.fst_mem_of_mem_zipIdx hid'))
  dsimp only at hle ⊢
  rw [hlogs, hlogs'] at hle ⊢
  exact hle first rfl first' rfl

/-- Flows are named after their correlations and places. -/
theorem id_flowsOf : (flowsOf settings logs).map Flow.id =
    (correlations logs).zipIdx.map fun (id, index) => id ++ "-" ++ toString index := by
  rw [flowsOf_eq, List.map_map]
  rfl

/-- The places tell the names of flows apart. -/
theorem nodup_id_flowsOf : ((flowsOf settings logs).map Flow.id).Nodup := by
  have hplaces : (correlations logs).zipIdx.Nodup :=
    List.Nodup.of_map Prod.fst ((List.zipIdx_map_fst 0 (correlations logs)).symm ▸
      nodup_correlations logs)
  rw [id_flowsOf]
  refine hplaces.map fun ⟨id, index⟩ ⟨id', index'⟩ h => ?_
  exact Prod.ext_iff.mpr (numbered_inj.mp h)

end

end TrustFramework
