import TrustFramework.Proofs.Trace.Repetition

/-!
# What a trace reports

The errors of a trace are what its logs report, in the order in which it happens: clips that
cannot be read, groups that cannot be interpreted, and of the exceptions of a log the last one.
An earlier exception of the same log is not reported.

## Main definitions

* `exceptionsOf` — the exceptions of a log.
* `Rebuilding.report?`, `Rebuilding.reports` — the errors of an occurrence and of a run.
* `Rebuilding.IsReported` — the texts that logs report.

## Main results

* `Rebuilding.errors_rebuildWith` — the errors of a trace are the reports of its run.
* `Rebuilding.failures_reported` — **which failures are reported.**
* `Rebuilding.exception_lost` — an exception that is not.
-/

namespace TrustFramework

/-! ### Exceptions -/

/-- The exception that a clip reports, if it does. -/
def Clip.exception? : Clip → Option RecordedException
  | fatal e _ => some e
  | _ => none

/-- The exceptions that a log reports. -/
def exceptionsOf (clips : List Clip) : List RecordedException := clips.filterMap Clip.exception?

/-- The exception that ended a log is the last that it reports. -/
theorem map_fatalOf? (clips : List Clip) :
    (fatalOf? clips).map Prod.fst = (exceptionsOf clips).getLast? := by
  rw [exceptionsOf, List.getLast?_filterMap, fatalOf?, List.map_findSome?]
  congr 1
  funext clip
  cases clip <;> rfl

namespace Rebuilding

/-! ### Reports -/

/-- What is reported about a group: that its interpreter does not understand it, or what the
interpreter says. -/
def complaint? (t : Rebuilding) (log : LogInput) (g : HandlerGroup) : Option String :=
  match (t.registry.interpret (t.contextOf log g)).2 with
  | .skipped => none
  | .failed => some ("Interpreter error in " ++ g.handler ++ ": ")
  | .done f _ => if f.success then none else f.error.filter fun e => !e.isEmpty

/-- What is reported about an occurrence. -/
def report? (t : Rebuilding) : Occurrence → Option String
  | .malformed line => some line
  | .event _ (.change _) => none
  | .event log (.group g) => t.complaint? log g
  | .fatal _ message => some message

/-- What is reported in the course of some occurrences. -/
def reports (t : Rebuilding) (past : List Occurrence) : List String :=
  along (fun t o => (t.report? o).toList) t past

/-! ### Errors -/

@[simp] theorem errors_close (t : Rebuilding) : t.close.errors = t.errors := by
  obtain ⟨_, _, h⟩ := exists_close_eq t
  rw [h]

theorem errors_advance (t : Rebuilding) (f : Findings) (log : LogInput) (eventType : String) :
    (t.advance f log eventType).errors = t.errors := by
  unfold advance
  cases f.createStep with
  | true => exact errors_close t
  | false => rfl

/-- Findings about a group that was interpreted are no error. -/
theorem errors_apply (t : Rebuilding) (f : Findings) (log : LogInput) (eventType : String) :
    (t.apply f log eventType).errors = t.errors ++
      (if f.success then none else f.error.filter fun e => !e.isEmpty).toList := by
  cases hsuccess : f.success with
  | true =>
    rw [apply_of_success hsuccess, if_pos rfl, Option.toList_none, List.append_nil,
      ← errors_advance t f log eventType]
    split
    · exact errors_close _
    · rfl
  | false =>
    rw [if_neg Bool.false_ne_true, apply, hsuccess, Bool.not_false, if_pos rfl]
    cases f.error.filter fun e => !e.isEmpty with
    | none => simp
    | some e => rfl

theorem errors_takeGroup (t : Rebuilding) (log : LogInput) (g : HandlerGroup) :
    (t.takeGroup log log.type g).errors = t.errors ++ (t.complaint? log g).toList := by
  unfold complaint?
  cases hread : (t.registry.interpret (t.contextOf log g)).2 with
  | skipped =>
    unfold takeGroup
    unfold contextOf at hread
    simp [hread]
  | failed =>
    unfold takeGroup
    unfold contextOf at hread
    simp [hread, report]
  | done f moved =>
    rw [takeGroup_of_done hread, errors_apply]

/-- **Step.**  An occurrence adds what is reported about it to the errors. -/
theorem errors_undergo (t : Rebuilding) (o : Occurrence) :
    (t.undergo o).errors = t.errors ++ (t.report? o).toList := by
  cases o with
  | malformed line => rfl
  | fatal log message => exact errors_close (t.failOpen message)
  | event log e =>
    cases e with
    | change c => exact (List.append_nil _).symm
    | group g => exact errors_takeGroup t log g

variable {registry : Registry} {settings : TraceSettings} {logs : List LogInput}

/-- **Run.**  The errors are all that was reported. -/
theorem errors_behind (past : List Occurrence) :
    (behind registry settings logs past).errors =
      (behind registry settings logs []).reports past := by
  refine behind_induction (motive := fun past t =>
    t.errors = (behind registry settings logs []).reports past) rfl ?_ past
  intro past o ih
  rw [reports, along_append_singleton, ← reports, ← ih]
  exact errors_undergo _ o

/-- **The errors of a trace are the reports of its run**, in the order in which they are made. -/
theorem errors_rebuildWith (registry : Registry) (passes : List Pass) (settings : TraceSettings)
    (logs : List LogInput) :
    (rebuildWith registry passes settings logs).2.errors =
      if (supportedLogs settings logs).isEmpty then [noSupportedEvents]
      else (behind registry settings logs []).reports (occurrences settings logs) := by
  by_cases hlogs : supportedLogs settings logs = []
  · rw [rebuildWith, hlogs]
    rfl
  · rw [rebuildWith_eq hlogs, if_neg (by simpa using hlogs), ← errors_behind, ← errors_close]
    rfl

/-! ### What is reported -/

/-- The texts that the logs of a trace report. -/
inductive IsReported (registry : Registry) (settings : TraceSettings) (logs : List LogInput) :
    String → Prop
  /-- The line about a clip that cannot be read. -/
  | malformed {log : LogInput} {m : String × Value × String}
      (hlog : log ∈ supportedLogs settings logs) (hm : m ∈ malformedOf log.clips) :
      IsReported registry settings logs (malformedLine log m.1 m.2.2)
  /-- The message of the last exception of a log. -/
  | exception {log : LogInput} {e : RecordedException}
      (hlog : log ∈ supportedLogs settings logs)
      (hlast : (exceptionsOf log.clips).getLast? = some e) :
      IsReported registry settings logs e.message
  /-- What is reported about a group. -/
  | complaint {past rest : List Occurrence} {log : LogInput} {g : HandlerGroup} {text : String}
      (hgroup : occurrences settings logs = past ++ .event log (.group g) :: rest)
      (htext : (behind registry settings logs past).complaint? log g = some text) :
      IsReported registry settings logs text

theorem malformed_mem_occurrences_iff {line : String} :
    .malformed line ∈ occurrences settings logs ↔ ∃ log ∈ supportedLogs settings logs,
      ∃ m ∈ malformedOf log.clips, malformedLine log m.1 m.2.2 = line := by
  simp [occurrences, LogInput.occurrences]

theorem fatal_mem_occurrences_iff {log : LogInput} {message : String} :
    .fatal log message ∈ occurrences settings logs ↔ log ∈ supportedLogs settings logs ∧
      ∃ e, (exceptionsOf log.clips).getLast? = some e ∧ e.message = message := by
  simp only [← map_fatalOf?]
  simp [occurrences, LogInput.occurrences]

/-- The reports of a trace are these texts. -/
theorem mem_reports_occurrences_iff {text : String} :
    text ∈ (behind registry settings logs []).reports (occurrences settings logs) ↔
      IsReported registry settings logs text := by
  rw [reports, mem_along_iff]
  simp only [Option.mem_toList]
  constructor
  · rintro ⟨earlier, o, later, hrun, htext⟩
    have ho : o ∈ occurrences settings logs := by simp [hrun]
    cases o with
    | malformed line =>
      obtain rfl := Option.some.inj htext
      obtain ⟨log, hlog, m, hm, rfl⟩ := malformed_mem_occurrences_iff.mp ho
      exact .malformed hlog hm
    | fatal log message =>
      obtain rfl := Option.some.inj htext
      obtain ⟨hlog, e, hlast, rfl⟩ := fatal_mem_occurrences_iff.mp ho
      exact .exception hlog hlast
    | event log e =>
      cases e with
      | change c => cases htext
      | group g => exact .complaint hrun htext
  · rintro (@⟨log, m, hlog, hm⟩ | @⟨log, e, hlog, hlast⟩ | @⟨past, rest, log, g, _, hrun, htext⟩)
    · obtain ⟨earlier, later, hrun⟩ :=
        List.append_of_mem (malformed_mem_occurrences_iff.mpr ⟨log, hlog, m, hm, rfl⟩)
      exact ⟨earlier, _, later, hrun, rfl⟩
    · obtain ⟨earlier, later, hrun⟩ :=
        List.append_of_mem (fatal_mem_occurrences_iff.mpr ⟨hlog, e, hlast, rfl⟩)
      exact ⟨earlier, _, later, hrun, rfl⟩
    · exact ⟨past, _, rest, hrun, htext⟩

/-- **Which failures are reported.**  The errors of a trace are the reports of its run.  The line
about every clip that cannot be read is among them, and the message of the last exception of every
log.  The messages of all exceptions are exactly if each that is not the last of its log is a text
that is reported anyway. -/
theorem failures_reported (registry : Registry) (passes : List Pass) (settings : TraceSettings)
    (logs : List LogInput) :
    let errors := (rebuildWith registry passes settings logs).2.errors
    let supported := supportedLogs settings logs
    errors = (if supported.isEmpty then [noSupportedEvents]
      else (behind registry settings logs []).reports (occurrences settings logs)) ∧
    (∀ log ∈ supported, ∀ m ∈ malformedOf log.clips, malformedLine log m.1 m.2.2 ∈ errors) ∧
    ((∀ log ∈ supported, ∀ e ∈ exceptionsOf log.clips, e.message ∈ errors) ↔
      ∀ log ∈ supported, ∀ e ∈ (exceptionsOf log.clips).dropLast,
        IsReported registry settings logs e.message) := by
  intro errors supported
  have herrors := errors_rebuildWith registry passes settings logs
  have hreported {log : LogInput} (hlog : log ∈ supported) (text : String) :
      text ∈ errors ↔ IsReported registry settings logs text := by
    rw [← mem_reports_occurrences_iff]
    show text ∈ (rebuildWith registry passes settings logs).2.errors ↔ _
    rw [herrors, if_neg (by simpa using List.ne_nil_of_mem hlog)]
  refine ⟨herrors, ?_, ?_, ?_⟩
  · intro log hlog m hm
    exact (hreported hlog _).mpr (.malformed hlog hm)
  · intro hall log hlog e he
    exact (hreported hlog _).mp (hall log hlog e ((List.dropLast_sublist _).mem he))
  · intro hothers log hlog e he
    rw [hreported hlog]
    obtain ⟨last, hlast⟩ := Option.isSome_iff_exists.mp
      (List.getLast?_isSome.mpr (List.ne_nil_of_mem he))
    -- the last exception of a log is reported in any case
    rw [← List.dropLast_append_getLast? last hlast] at he
    rcases List.mem_append.mp he with he | he
    · exact hothers log hlog e he
    · rw [List.mem_singleton.mp he]
      exact .exception hlog hlast

/-! ### An exception that is lost -/

/-- A log that reports two exceptions. -/
def failingTwice : LogInput where
  id := "a"
  timestamp := after 0
  policyId := "P"
  correlationId := "C"
  clips :=
    [.headers { eventInstance := "Event:AUTH", policyId := "P" },
      .fatal (.mk "The directory is down" none none none) none,
      .fatal (.mk "The session is lost" none none none) none]

theorem occurrences_failingTwice :
    supportedLogs {} [failingTwice] = [failingTwice] ∧
      occurrences {} [failingTwice] = [.fatal failingTwice "The session is lost"] := by
  have hevent : ({} : TraceSettings).events.contains failingTwice.event = true := by decide
  obtain ⟨hsupported, hoccurrences⟩ := occurrences_singleton hevent
  rw [hoccurrences, LogInput.occurrences, eventsOf_eq rfl rfl List.Pairwise.nil]
  exact ⟨hsupported, rfl⟩

/-- **An exception that is lost**: the first of two in one log. -/
theorem exception_lost :
    ¬ ∀ (settings : TraceSettings) (logs : List LogInput), ∀ log ∈ supportedLogs settings logs,
      ∀ e ∈ exceptionsOf log.clips, e.message ∈ (rebuild settings logs).errors := by
  intro h
  obtain ⟨hsupported, hoccurrences⟩ := occurrences_failingTwice
  have herrors : (rebuild {} [failingTwice]).errors = ["The session is lost"] := by
    rw [rebuild, errors_rebuildWith, hsupported, hoccurrences]
    rfl
  have hfirst := h {} [failingTwice] failingTwice (by simp [hsupported])
    (.mk "The directory is down" none none none) (by simp [exceptionsOf, failingTwice,
      Clip.exception?])
  rw [herrors] at hfirst
  exact absurd (List.mem_singleton.mp hfirst) (by decide)

end Rebuilding
end TrustFramework
