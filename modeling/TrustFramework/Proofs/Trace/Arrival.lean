import Mathlib.Data.List.Nodup
import TrustFramework.Proofs.Trace.Orchestration
import TrustFramework.Proofs.Trace.Succession
import TrustFramework.Trace.Flow

/-!
# In whatever order logs arrive

Logs are sorted by their times and identifiers before anything else is done with them.  Two logs
that share both keep the order in which they came; where no two do, sorted logs tell nothing of
that order, and neither do a trace and the flows.

## Main definitions

* `LogInput.moment` — what logs are sorted by.

## Main results

* `sorted_eq_of_perm`, `supportedLogs_eq_of_perm` — sorting forgets the order of arrival.
* `trace_flows_eq_of_perm` — **the order of arrival matters neither to a trace nor to the flows.**
-/

namespace TrustFramework

namespace LogInput

/-- What logs are sorted by: the time, whichever clock spells it, and the identifier. -/
def moment (log : LogInput) : Int × String := (log.timestamp.instant, log.id)

/-- Logs before which each other comes are of the same moment. -/
theorem moment_eq_of_le {a b : LogInput} (hab : a.le b = true) (hba : b.le a = true) :
    a.moment = b.moment := by
  rw [le_iff] at hab hba
  obtain hab | ⟨htime, hid⟩ := hab <;> obtain hba | ⟨htime', hid'⟩ := hba
  · exact absurd hab (Int.lt_asymm hba)
  · exact absurd hab (Int.lt_irrefl _ <| htime' ▸ ·)
  · exact absurd hba (Int.lt_irrefl _ <| htime ▸ ·)
  · exact Prod.ext htime (String.le_antisymm hid hid')

end LogInput

section

variable {logs logs' : List LogInput}

/-- Where no two logs are of the same moment, sorting forgets the order in which they came. -/
theorem sorted_eq_of_perm (hperm : logs'.Perm logs) (hmoments : (logs.map LogInput.moment).Nodup) :
    LogInput.sorted logs' = LogInput.sorted logs := by
  have hsorted (logs : List LogInput) : (LogInput.sorted logs).Perm logs :=
    List.mergeSort_perm logs LogInput.le
  have hmem : ∀ a ∈ LogInput.sorted logs', a ∈ logs := fun a ha =>
    hperm.subset ((hsorted logs').subset ha)
  refine List.Perm.eq_of_pairwise (fun a b ha hb hab hba => ?_) (pairwise_le_sorted logs')
    (pairwise_le_sorted logs) (((hsorted logs').trans hperm).trans (hsorted logs).symm)
  exact List.inj_on_of_nodup_map hmoments (hmem a ha) ((hsorted logs).subset hb)
    (LogInput.moment_eq_of_le hab hba)

/-- As above, for the logs of which a trace is made. -/
theorem supportedLogs_eq_of_perm (settings : TraceSettings) (hperm : logs'.Perm logs)
    (hmoments : (logs.map LogInput.moment).Nodup) :
    supportedLogs settings logs' = supportedLogs settings logs :=
  sorted_eq_of_perm (hperm.filter _) ((List.filter_sublist.map LogInput.moment).nodup hmoments)

/-- **The order of arrival matters neither to a trace nor to the flows**, as long as no two logs
are of the same moment. -/
theorem trace_flows_eq_of_perm (registry : Registry) (passes : List Pass)
    (settings : TraceSettings) (hperm : logs'.Perm logs)
    (hmoments : (logs.map LogInput.moment).Nodup) :
    rebuildWith registry passes settings logs' = rebuildWith registry passes settings logs ∧
      flowsOf settings logs' = flowsOf settings logs := by
  constructor
  · rw [rebuildWith, supportedLogs_eq_of_perm settings hperm hmoments, rebuildWith]
  · rw [flowsOf, sorted_eq_of_perm hperm hmoments, flowsOf]

end

/-- A moment as a clock spells it that is an hour ahead. -/
def Timestamp.anHourAhead (t : Timestamp) : Timestamp :=
  ⟨t.clock + 3600 * Timestamp.second, t.offset + 3600 * Timestamp.second⟩

open Rebuilding in
/-- Of three logs the first two are of the same time, though on different clocks.  They are taken
by their identifiers, whichever came first. -/
theorem trace_flows_reversed :
    let logs := [beginning "a" (after 0).anHourAhead, beginning "b" (after 0),
      beginning "c" (after 2000)]
    (logs.map LogInput.moment).Nodup ∧ ∀ registry passes settings,
      rebuildWith registry passes settings logs.reverse =
          rebuildWith registry passes settings logs ∧
        flowsOf settings logs.reverse = flowsOf settings logs := by
  intro logs
  have hmoments : (logs.map LogInput.moment).Nodup := by decide
  exact ⟨hmoments, fun registry passes settings =>
    trace_flows_eq_of_perm registry passes settings logs.reverse_perm hmoments⟩

end TrustFramework
