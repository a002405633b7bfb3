import Mathlib.Data.List.Induction
import TrustFramework.Trace.Reconstruction

/-!
# The run of a trace

A trace is rebuilt from what happens one after the other: a log reports clips that it
cannot read, then its events, then the exception that ended it.  The logs of a trace follow
each other, and so does what happens in them.

## Main definitions

* `Occurrence`, `LogInput.occurrences`, `occurrences` — what happens in a log and in all of them.
* `Rebuilding.undergo` — a trace in the making after one occurrence.
* `Rebuilding.behind` — a trace in the making behind the first occurrences of some logs.
* `Rebuilding.along` — what occurrences leave behind, one after the other.

## Main results

* `Rebuilding.take_eq_foldl` — a log is taken one occurrence at a time.
* `rebuildWith_eq` — **a trace is what its run leads to.**
* `Rebuilding.behind_induction` — what holds at the start and is kept by every occurrence
  holds all along.
-/

namespace TrustFramework

/-- What can happen to a trace in the making. -/
inductive Occurrence where
  /-- A clip cannot be read. -/
  | malformed (line : String)
  /-- A handler ran or the state changed. -/
  | event (log : LogInput) (e : Rebuilding.Event)
  /-- An exception ended a log. -/
  | fatal (log : LogInput) (message : String)

/-- The type of the event that a log is about. -/
def LogInput.type (log : LogInput) : String := LogInput.eventType (headersOf? log.clips)

/-- What happens in a log. -/
def LogInput.occurrences (log : LogInput) : List Occurrence :=
  ((malformedOf log.clips).map fun (kind, _, problem) =>
      .malformed (Rebuilding.malformedLine log kind problem)) ++
    (Rebuilding.eventsOf log.clips).map (.event log) ++
    (fatalOf? log.clips).toList.map fun (e, _) => .fatal log e.message

/-- What happens in the logs of a trace. -/
def occurrences (settings : TraceSettings) (logs : List LogInput) : List Occurrence :=
  (supportedLogs settings logs).flatMap LogInput.occurrences

namespace Rebuilding

/-- A trace in the making after one occurrence. -/
def undergo (t : Rebuilding) : Occurrence → Rebuilding
  | .malformed line => t.report line
  | .event log e => takeEvent log log.type t e
  | .fatal log message => t.takeFatal message log

theorem undergo_group (t : Rebuilding) (log : LogInput) (g : HandlerGroup) :
    t.undergo (.event log (.group g)) = t.takeGroup log log.type g := rfl

/-- A log is taken one occurrence at a time. -/
theorem take_eq_foldl (t : Rebuilding) (log : LogInput) :
    t.take log = log.occurrences.foldl undergo t := by
  rw [LogInput.occurrences, List.foldl_append, List.foldl_append, List.foldl_map,
    List.foldl_map, List.foldl_map, take]
  cases fatalOf? log.clips <;> rfl

theorem foldl_take (t : Rebuilding) (logs : List LogInput) :
    logs.foldl take t = (logs.flatMap LogInput.occurrences).foldl undergo t := by
  rw [List.foldl_flatMap]
  congr 1
  funext t log
  exact take_eq_foldl t log

/-- A trace in the making behind the first occurrences in its logs. -/
def behind (registry : Registry) (settings : TraceSettings) (logs : List LogInput)
    (past : List Occurrence) : Rebuilding :=
  past.foldl undergo
    (start registry.forgotten settings.dedupWindow (mainJourneyOf (supportedLogs settings logs)))

variable {registry : Registry} {settings : TraceSettings} {logs : List LogInput}

theorem behind_append_singleton (past : List Occurrence) (o : Occurrence) :
    behind registry settings logs (past ++ [o]) =
      (behind registry settings logs past).undergo o := by
  rw [behind, List.foldl_append]
  rfl

/-- What holds at the start of a run and is kept by every occurrence holds all along. -/
theorem behind_induction {motive : List Occurrence → Rebuilding → Prop}
    (hstart : motive [] (behind registry settings logs []))
    (hundergo : ∀ past o, motive past (behind registry settings logs past) →
      motive (past ++ [o]) ((behind registry settings logs past).undergo o))
    (past : List Occurrence) : motive past (behind registry settings logs past) := by
  induction past using List.reverseRecOn with
  | nil => exact hstart
  | append_singleton past o ih =>
    rw [behind_append_singleton]
    exact hundergo past o ih

/-! ### What a run leaves behind -/

section

variable {α : Type} (leave : Rebuilding → Occurrence → List α)

/-- What occurrences leave behind, one after the other. -/
def along (t : Rebuilding) : List Occurrence → List α
  | [] => []
  | o :: rest => leave t o ++ along (t.undergo o) rest

theorem along_append (t : Rebuilding) (past more : List Occurrence) :
    along leave t (past ++ more) = along leave t past ++ along leave (past.foldl undergo t) more := by
  induction past generalizing t with
  | nil => rfl
  | cons o past ih => rw [List.cons_append, along, along, ih, List.append_assoc, List.foldl_cons]

theorem along_append_singleton (t : Rebuilding) (past : List Occurrence) (o : Occurrence) :
    along leave t (past ++ [o]) = along leave t past ++ leave (past.foldl undergo t) o := by
  rw [along_append, along, along, List.append_nil]

/-- What a run leaves behind is left by some occurrence, behind those before it. -/
theorem mem_along_iff {t : Rebuilding} {past : List Occurrence} {x : α} :
    x ∈ along leave t past ↔ ∃ earlier o later, past = earlier ++ o :: later ∧
      x ∈ leave (earlier.foldl undergo t) o := by
  induction past generalizing t with
  | nil => simp [along]
  | cons o past ih =>
    rw [along, List.mem_append, ih]
    constructor
    · rintro (hx | ⟨earlier, p, later, rfl, hx⟩)
      · exact ⟨[], o, past, rfl, hx⟩
      · exact ⟨o :: earlier, p, later, rfl, hx⟩
    · rintro ⟨earlier, p, later, hpast, hx⟩
      cases earlier with
      | nil =>
        obtain ⟨rfl, -⟩ := List.cons.inj hpast
        exact Or.inl hx
      | cons first earlier =>
        obtain ⟨rfl, rfl⟩ := List.cons.inj hpast
        exact Or.inr ⟨earlier, p, later, rfl, hx⟩

end

end Rebuilding

/-- **A trace is what its run leads to**, once the step that is open at last is closed. -/
theorem rebuildWith_eq {registry : Registry} {passes : List Pass} {settings : TraceSettings}
    {logs : List LogInput} (h : supportedLogs settings logs ≠ []) :
    rebuildWith registry passes settings logs =
      let t := (Rebuilding.behind registry settings logs (occurrences settings logs)).close
      (t.registry, t.trace (mainJourneyOf (supportedLogs settings logs)) passes) := by
  rw [Rebuilding.behind, occurrences, ← Rebuilding.foldl_take, rebuildWith]
  cases hlogs : supportedLogs settings logs with
  | nil => exact absurd hlogs h
  | cons log rest => rfl

end TrustFramework
